import MWebServer.Lib.Ledger
import MWebServer.Web.ErrorPage
import MWebServer.Web.Unfinished

/-!
# The descriptors of a request

`http_request` opens files in three places: the requested path, the `index.html` of a
directory, and `error.html`.  It closes them in three others: the directory at once,
`error.html` behind its `sendfile`, and what is served at the end.

* `Kernel.Holds` — the ledger of the kernel: what has been opened since, and is still to be
  closed.
* `handleRequest_holds` — the handlers hold the resource they have opened, if any.
* `respond_leaks` — an error response also leaves `error.html` open when its size is not
  positive, for it is closed only where it is sent.
* `handlerLive_iff` — a request that closes at once is freed before its descriptor is read from it.
* `descriptors_balanced_iff` — a call closes exactly once what it has opened if and only if neither
  happens.
-/

namespace MWebServer

theorem length_le_snoc {α : Type} {xs ys : List α} (h : xs.length ≤ ys.length) (a : α) :
    xs.length ≤ (ys ++ [a]).length := by
  rw [List.length_append]
  exact Nat.le_add_right_of_le h

/-! ## The ledger of the kernel -/

namespace Kernel

variable {k₀ k k' : Kernel} {held : List Int} {fd : Int}

/-- The descriptors that `openat` has returned since `k₀`. -/
def openedSince (k k₀ : Kernel) : List Int :=
  ((k.opened.drop k₀.opened.length).map Opened.fd).filter fun fd => fd ≠ -1

/-- The descriptors that have been closed since `k₀`. -/
def closedSince (k k₀ : Kernel) : List Int := k.closed.drop k₀.closed.length

/-- **Every descriptor obtained from `openat` since `k₀` has been closed exactly once**, wherever the
server had its number from. -/
def Balanced (k k₀ : Kernel) : Prop :=
  ∀ fd ∈ k.openedSince k₀, (k.closedSince k₀).count fd = 1

instance (k k₀ : Kernel) : Decidable (k.Balanced k₀) :=
  inferInstanceAs (Decidable (∀ fd ∈ k.openedSince k₀, (k.closedSince k₀).count fd = 1))

/-- Since `k₀` descriptors have been opened and closed; the ones in `held` are still open. -/
structure Holds (k₀ k : Kernel) (held : List Int) : Prop where
  opened : k₀.opened.length ≤ k.opened.length
  closed : k₀.closed.length ≤ k.closed.length
  nextFd : k₀.nextFd ≤ k.nextFd
  fresh : ∀ fd ∈ k.openedSince k₀, k₀.nextFd < fd ∧ fd ≤ k.nextFd
  closed_le : ∀ fd ∈ k.closedSince k₀, fd ≤ k.nextFd
  ledger : Ledger (k.openedSince k₀) (k.closedSince k₀) held

theorem Holds.refl (k : Kernel) : k.Holds k [] := by
  have hopened : k.openedSince k = [] := by
    unfold openedSince
    rw [List.drop_length]
    rfl
  have hclosed : k.closedSince k = [] := List.drop_length
  refine ⟨le_rfl, le_rfl, le_rfl, ?_, ?_, ?_⟩
  · simp [hopened]
  · simp [hclosed]
  · rw [hopened]
    exact .nil _

/-- What has been opened and closed, and the descriptor that is next. -/
def descriptors (k : Kernel) : Nat × List Opened × List Int := (k.nextFd, k.opened, k.closed)

theorem Holds.congr (h : k₀.Holds k held) (heq : k'.descriptors = k.descriptors) :
    k₀.Holds k' held := by
  simp only [descriptors, Prod.mk.injEq] at heq
  obtain ⟨hnext, hopened, hclosed⟩ := heq
  have hsince : k'.openedSince k₀ = k.openedSince k₀ := by
    unfold openedSince
    rw [hopened]
  have hsince' : k'.closedSince k₀ = k.closedSince k₀ := by
    unfold closedSince
    rw [hclosed]
  exact ⟨hopened ▸ h.opened, hclosed ▸ h.closed, hnext ▸ h.nextFd, by rw [hsince, hnext]; exact h.fresh,
    by rw [hsince', hnext]; exact h.closed_le, by rw [hsince, hsince']; exact h.ledger⟩

/-- Another call of `openat` is recorded. -/
theorem openedSince_append {o : Opened} (h : k₀.opened.length ≤ k.opened.length)
    (hopened : k'.opened = k.opened ++ [o]) :
    k'.openedSince k₀ = k.openedSince k₀ ++ if o.fd = -1 then [] else [o.fd] := by
  unfold openedSince
  rw [hopened, List.drop_append_of_le_length h]
  by_cases hfd : o.fd = -1 <;> simp [hfd]

/-- An `openat` that finds nothing. -/
theorem Holds.openat_none (h : k₀.Holds k held) (dirfd : Int) (path : List Byte) :
    k₀.Holds (k.openat dirfd path none).2 held := by
  have hsince : (k.openat dirfd path none).2.openedSince k₀ = k.openedSince k₀ :=
    (openedSince_append h.opened rfl).trans (List.append_nil _)
  refine ⟨length_le_snoc h.opened _, h.closed, h.nextFd, by rw [hsince]; exact h.fresh, h.closed_le, ?_⟩
  rw [hsince]
  exact h.ledger

/-- An `openat` that finds something: its descriptor is held. -/
theorem Holds.openat (h : k₀.Holds k held) (dirfd : Int) (path : List Byte) (inode : Inode) :
    k₀.Holds (k.openat dirfd path (some inode)).2
      (held ++ [(k.openat dirfd path (some inode)).1]) := by
  have hfd : (k.openat dirfd path (some inode)).1 = (k.nextFd : Int) + 1 := rfl
  have hsince : (k.openat dirfd path (some inode)).2.openedSince k₀ =
      k.openedSince k₀ ++ [(k.nextFd : Int) + 1] := by
    refine (openedSince_append h.opened rfl).trans ?_
    rw [if_neg (by show ¬ ((k.nextFd + 1 : Nat) : Int) = -1; omega)]
    rfl
  have hnext : (k.openat dirfd path (some inode)).2.nextFd = k.nextFd + 1 := rfl
  have hle := h.nextFd
  refine ⟨length_le_snoc h.opened _, h.closed, ?_, fun fd hmem => ?_, fun fd hmem => ?_, ?_⟩
  · rw [hnext]
    omega
  · rw [hsince] at hmem
    rw [hnext]
    rcases List.mem_append.1 hmem with hold | hnew
    · have hfresh := h.fresh fd hold
      omega
    · obtain rfl := List.mem_singleton.1 hnew
      omega
  · have hold := h.closed_le fd hmem
    rw [hnext]
    omega
  · rw [hfd, hsince]
    refine h.ledger.take (fun hmem => ?_) (fun hmem => ?_)
    · have hfresh := h.fresh _ hmem
      omega
    · have hold := h.closed_le _ hmem
      omega

theorem closedSince_close (h : k₀.closed.length ≤ k.closed.length) (fd : Int) :
    (k.close fd).closedSince k₀ = k.closedSince k₀ ++ [fd] :=
  List.drop_append_of_le_length h

/-- Any `close` of a descriptor that has been handed out. -/
theorem Holds.close_of_ledger {held' : List Int} (h : k₀.Holds k held) (hle : fd ≤ k.nextFd)
    (hledger : Ledger (k.openedSince k₀) (k.closedSince k₀ ++ [fd]) held') :
    k₀.Holds (k.close fd) held' := by
  have hsince := closedSince_close h.closed fd
  refine ⟨h.opened, length_le_snoc h.closed fd, h.nextFd, h.fresh, fun fd' hmem => ?_,
    by rw [hsince]; exact hledger⟩
  rw [hsince] at hmem
  rcases List.mem_append.1 hmem with hold | hnew
  · exact h.closed_le fd' hold
  · obtain rfl := List.mem_singleton.1 hnew
    exact hle

/-- What is held is closed. -/
theorem Holds.close (h : k₀.Holds k (fd :: held)) : k₀.Holds (k.close fd) held :=
  h.close_of_ledger (h.fresh fd (h.ledger.mem_taken fd List.mem_cons_self)).2 h.ledger.give

/-- A descriptor is closed that was open before. -/
theorem Holds.close_old (h : k₀.Holds k held) (hold : fd ≤ k₀.nextFd) : k₀.Holds (k.close fd) held := by
  have hnext := h.nextFd
  refine h.close_of_ledger (by omega) (h.ledger.foreign fun hmem => ?_)
  have hfresh := h.fresh fd hmem
  omega

theorem Holds.balanced_iff (h : k₀.Holds k held) : k.Balanced k₀ ↔ held = [] := h.ledger.balanced_iff

theorem Holds.perm {held' : List Int} (h : k₀.Holds k held) (hperm : held.Perm held') :
    k₀.Holds k held' := ⟨h.opened, h.closed, h.nextFd, h.fresh, h.closed_le, h.ledger.perm hperm⟩

end Kernel

namespace Session

variable {env : Env} {s s' : WebSession} {status : Int} {k₀ : Kernel} {leak : List Int}

/-- The resource of the request, if one is open. -/
def heldResource (s : WebSession) : List Int :=
  if s.handler.resourceFd > 0 then [s.handler.resourceFd] else []

theorem heldResource_of_pos (h : s.handler.resourceFd > 0) :
    s.heldResource = [s.handler.resourceFd] := if_pos h

theorem heldResource_of_not_pos (h : ¬ s.handler.resourceFd > 0) : s.heldResource = [] := if_neg h

/-- **The socket is open**, so that `openat` does not hand out its descriptor. -/
def SocketOpen (s : WebSession) : Prop := s.ev.fd ≤ s.kernel.nextFd

/-! ## The handlers -/

/-- What the request line leaves behind: its resource is held, and the headers are next. -/
structure LineHolds (k₀ : Kernel) (status : Int) (s : WebSession) : Prop where
  holds : k₀.Holds s.kernel s.heldResource
  next : status = OK → s.handler.reqHandler = some .headers

/-- What the rest of `request_handle_request_line` opens is closed, or is the resource. -/
theorem openResource_holds {path : List Byte} (hok : s.openResource env path = (status, s'))
    (hnone : ¬ s.handler.resourceFd > 0) (h : k₀.Holds s.kernel s.heldResource) :
    LineHolds k₀ status s' := by
  suffices hholds : LineHolds k₀ (s.openResource env path).1 (s.openResource env path).2 by
    rw [hok] at hholds
    exact hholds
  have hheld := heldResource_of_not_pos hnone
  rw [hheld] at h
  unfold openResource syscall
  cases hroot : env.root path with
  | none =>
    refine ⟨?_, fun hok => absurd hok (show ¬ (404 : Int) = OK by decide)⟩
    show k₀.Holds _ s.heldResource
    rw [hheld]
    exact h.openat_none env.rootdirFd path
  | some inode =>
    have hopen := h.openat env.rootdirFd path inode
    have hpos := Kernel.openat_pos env.rootdirFd path inode s.kernel
    cases inode with
    | file content =>
      refine ⟨?_, fun _ => rfl⟩
      simp only
      rw [heldResource_of_pos hpos]
      exact hopen
    | dir size index =>
      let dir := s.kernel.openat env.rootdirFd path (some (.dir size index))
      cases index with
      | none =>
        refine ⟨?_, fun hok => absurd hok (show ¬ (404 : Int) = OK by decide)⟩
        show k₀.Holds _ s.heldResource
        rw [hheld]
        exact (hopen.openat_none dir.1 (str "index.html")).close
      | some html =>
        have hpos' := Kernel.openat_pos dir.1 (str "index.html") html dir.2
        refine ⟨?_, fun _ => rfl⟩
        simp only
        rw [heldResource_of_pos hpos']
        exact (hopen.openat dir.1 (str "index.html") html).close

theorem requestHandleRequestLine_holds (hok : s.requestHandleRequestLine env = .ok (status, s'))
    (hnone : ¬ s.handler.resourceFd > 0) (h : k₀.Holds s.kernel s.heldResource) :
    LineHolds k₀ status s' := by
  rcases requestHandleRequestLine_cases hok with ⟨par, hcode, rfl⟩ | ⟨par, mem, path, -, hopen⟩
  · refine ⟨h, ?_⟩
    rcases hcode with rfl | rfl | rfl <;> exact fun hok => absurd hok (by decide)
  · exact openResource_holds hopen hnone h

/-- **The handlers hold at most the resource.** -/
theorem handleRequest_holds (h : s.handleRequest env = .ok (status, s')) :
    s.kernel.Holds s'.kernel s'.heldResource := by
  -- nothing is open before the request line, and the other stages open nothing
  let I : WebSession → Prop := fun t => s.kernel.Holds t.kernel t.heldResource ∧
    (t.handler.reqHandler = some .requestLine → ¬ t.handler.resourceFd > 0)
  let J : Int → WebSession → Prop := fun status t => s.kernel.Holds t.kernel t.heldResource ∧
    (status = OK → t.handler.reqHandler ≠ some .requestLine)
  refine (handlerLoop_rule (I := I) (J := J) ?_ ?_ ?_ h).1
  · exact fun t ht => ⟨ht.1, fun hreq => absurd hreq (ht.2 rfl)⟩
  · rintro t hd status t' ⟨hholds, hline⟩ hreq hcall
    cases hd with
    | requestLine =>
      have hnext := requestHandleRequestLine_holds hcall (hline hreq) hholds
      refine ⟨hnext.holds, fun hok => ?_⟩
      rw [hnext.next hok]
      decide
    | headers =>
      obtain ⟨mem, ar, req, -, -, rfl, hnext⟩ := requestHandleHeaders_frame hcall
      refine ⟨hholds, fun _ => ?_⟩
      show req ≠ _
      obtain rfl | rfl := hnext (by rw [hreq]; simp)
      · rw [hreq]
        decide
      · decide
    | body =>
      obtain ⟨ar, req, -, rfl, hnext⟩ := requestHandleBody_frame hcall
      refine ⟨hholds, fun hok => ?_⟩
      show req ≠ _
      rw [hnext hok]
      simp
  · exact ⟨.refl _, fun _ => show ¬ (-1 : Int) > 0 by decide⟩

/-! ## The response -/

/-- What a response to a request that was accepted leaves alone. -/
def descriptors (s : WebSession) : (Nat × List Opened × List Int) × Int × Int :=
  (s.kernel.descriptors, s.handler.resourceFd, s.ev.fd)

theorem appendAll_descriptors {lines : List (List Byte)} (h : s.appendAll env lines = .ok s') :
    s'.descriptors = s.descriptors := by
  induction lines generalizing s with
  | nil =>
    obtain rfl := Except.ok.inj h
    rfl
  | cons line lines ih =>
    rw [appendAll] at h
    obtain ⟨t, ht, h⟩ := Run.bind_eq_ok.1 h
    refine (ih h).trans ?_
    unfold append at ht
    simp only at ht
    split_ifs at ht
    · obtain rfl := Except.ok.inj ht
      rfl
    · obtain ⟨rb, -, ht⟩ := Run.bind_eq_ok.1 ht
      obtain rfl := Except.ok.inj ht
      rfl

theorem sendBufferDone_descriptors {n len ret : Int} (h : s.sendBufferDone n len = .ok (ret, s')) :
    s'.descriptors = s.descriptors := by
  unfold sendBufferDone at h
  by_cases hfail : n = -1
  · rw [if_pos hfail] at h
    obtain rfl := congrArg Prod.snd (Except.ok.inj h)
    rfl
  rw [if_neg hfail] at h
  by_cases hsome : n > 0
  · rw [if_pos hsome] at h
    obtain ⟨t, ht, h⟩ := Run.bind_eq_ok.1 h
    unfold releaseWrite at ht
    obtain ⟨rb, -, ht⟩ := Run.bind_eq_ok.1 ht
    obtain rfl := Except.ok.inj ht
    split_ifs at h
    all_goals
      obtain rfl := congrArg Prod.snd (Except.ok.inj h)
      rfl
  · rw [if_neg hsome] at h
    obtain rfl := congrArg Prod.snd (Except.ok.inj h)
    rfl

theorem connectionSendBuffer_descriptors {ret : Int} (h : s.connectionSendBuffer env = .ok (ret, s')) :
    s'.descriptors = s.descriptors := by
  unfold connectionSendBuffer at h
  simp only at h
  split at h
  · split_ifs at h
    · obtain ⟨⟨n, t⟩, ht, h⟩ := Run.bind_eq_ok.1 h
      unfold sendPending at ht
      obtain ⟨data, -, ht⟩ := Run.bind_eq_ok.1 ht
      obtain rfl := congrArg Prod.snd (Except.ok.inj ht)
      exact (sendBufferDone_descriptors h).trans rfl
    · obtain rfl := congrArg Prod.snd (Except.ok.inj h)
      rfl
  · obtain rfl := congrArg Prod.snd (Except.ok.inj h)
    rfl

theorem headSent_descriptors (ret : Int) (s : WebSession) :
    (s.headSent ret).2.descriptors = s.descriptors := by
  unfold headSent
  simp only
  split_ifs <;> rfl

theorem sendfile_descriptors (env : Env) (fd : Int) (count : Nat) (k : Kernel) :
    (k.sendfile env fd count).2.descriptors = k.descriptors := by
  unfold Kernel.sendfile
  split <;> rfl

theorem responseHandleSendFile_descriptors (env : Env) (s : WebSession) :
    (s.responseHandleSendFile env).2.descriptors = s.descriptors := by
  have hsend := sendfile_descriptors env s.handler.resourceFd (toSizeT s.handler.resourceSize) s.kernel
  unfold responseHandleSendFile syscall
  simp only
  split_ifs <;> exact congrArg (·, s.handler.resourceFd, s.ev.fd) hsend

/-- **A response to a request that was accepted** opens and closes nothing. -/
theorem responseHandle_descriptors (h : s.responseHandle env = .ok (status, s')) :
    s'.descriptors = s.descriptors := by
  unfold responseHandle at h
  split at h
  · obtain rfl := congrArg Prod.snd (Except.ok.inj h)
    exact responseHandleSendFile_descriptors env s
  · obtain ⟨⟨code, t⟩, ht, h⟩ := Run.bind_eq_ok.1 h
    have hhead : t.descriptors = s.descriptors := by
      unfold responseHandleSendLineAndHeader at ht
      obtain ⟨lines, -, ht⟩ := Run.bind_eq_ok.1 ht
      obtain ⟨u, hu, ht⟩ := Run.bind_eq_ok.1 ht
      obtain ⟨⟨ret, v⟩, hv, ht⟩ := Run.bind_eq_ok.1 ht
      obtain rfl := congrArg Prod.snd (Except.ok.inj ht)
      exact (headSent_descriptors ret v).trans
        ((connectionSendBuffer_descriptors hv).trans (appendAll_descriptors hu))
    simp only at h
    split_ifs at h
    · obtain rfl := congrArg Prod.snd (Except.ok.inj h)
      exact (responseHandleSendFile_descriptors env t).trans hhead
    · obtain rfl := congrArg Prod.snd (Except.ok.inj h)
      exact hhead

/-! ## Error responses -/

/-- What an error response leaves open: `error.html`, when it is there and its size is not
positive. -/
def leaked (env : Env) (k : Kernel) : List Int :=
  if env.root (str "error.html") ≠ none ∧ ¬ errorSize env > 0 then [(k.nextFd : Int) + 1] else []

theorem leaked_eq_nil_iff (env : Env) (k : Kernel) :
    leaked env k = [] ↔ env.root (str "error.html") = none ∨ 0 < errorSize env := by
  unfold leaked
  by_cases hroot : env.root (str "error.html") = none <;> by_cases hsize : 0 < errorSize env <;>
    simp [hroot, hsize]

/-- What a session holds, with the descriptors `leak` of nothing. -/
abbrev Leaks (k₀ : Kernel) (s : WebSession) (leak : List Int) : Prop :=
  k₀.Holds s.kernel (s.heldResource ++ leak)

theorem Leaks.congr (h : Leaks k₀ s leak) (heq : s'.descriptors = s.descriptors) :
    Leaks k₀ s' leak := by
  simp only [descriptors, Prod.mk.injEq] at heq
  obtain ⟨hkernel, hfd, -⟩ := heq
  have hheld : s'.heldResource = s.heldResource := by
    unfold heldResource
    rw [hfd]
  unfold Leaks
  rw [hheld]
  exact Kernel.Holds.congr h hkernel

/-- **An error response** opens `error.html`, and closes it only where it has something to send. -/
theorem responseAssembleErrBuffer_leaks {code : Int} (h : k₀.Holds s.kernel s.heldResource)
    (hok : s.responseAssembleErrBuffer env code = .ok s') :
    Leaks k₀ s' (leaked env s.kernel) ∧ s'.ev.fd = s.ev.fd := by
  unfold responseAssembleErrBuffer at hok
  obtain ⟨lines, -, hok⟩ := Run.bind_eq_ok.1 hok
  obtain ⟨t, ht, hok⟩ := Run.bind_eq_ok.1 hok
  have hframe := appendAll_descriptors ht
  have hsocket : t.ev.fd = s.ev.fd := congrArg (fun d => d.2.2) hframe
  obtain rfl := Except.ok.inj hok
  have hempty : Leaks k₀ s [] := by
    unfold Leaks
    rw [List.append_nil]
    exact h
  cases hroot : env.root (str "error.html") with
  | none =>
    rw [hroot] at hframe
    have hnothing : leaked env s.kernel = [] := (leaked_eq_nil_iff env _).2 (Or.inl hroot)
    rw [hnothing, if_neg (fun hfile => absurd hfile.1 (show ¬ (-1 : Int) > 0 by decide))]
    refine ⟨?_, hsocket⟩
    have hopen : Leaks k₀ { s with kernel := (s.kernel.openat env.rootdirFd (str "error.html") none).2 }
        [] := hempty.openat_none env.rootdirFd (str "error.html")
    exact hopen.congr hframe
  | some inode =>
    rw [hroot] at hframe
    let file := s.kernel.openat env.rootdirFd (str "error.html") (some inode)
    have hopen : Leaks k₀ { s with kernel := file.2 } [file.1] :=
      h.openat env.rootdirFd (str "error.html") inode
    have hopen' : Leaks k₀ t [file.1] := hopen.congr hframe
    have hpos := Kernel.openat_pos env.rootdirFd (str "error.html") inode s.kernel
    by_cases hsize : errorSize env > 0
    · rw [(leaked_eq_nil_iff env s.kernel).2 (Or.inr hsize), if_pos ⟨hpos, hsize⟩]
      refine ⟨?_, hsocket⟩
      have hsend := Kernel.Holds.congr hopen'
        (sendfile_descriptors env file.1 (toSizeT (errorSize env)) t.kernel)
      unfold Leaks
      rw [List.append_nil]
      exact (hsend.perm List.perm_append_comm).close
    · have hleak : leaked env s.kernel = [file.1] := if_pos ⟨by rw [hroot]; simp, hsize⟩
      rw [hleak, if_neg fun hfile => hsize hfile.2]
      exact ⟨hopen', hsocket⟩

/-- **The response** leaves what is held alone. -/
theorem respond_leaks (h : k₀.Holds s.kernel s.heldResource) (hok : s.respond env status = .ok s') :
    Leaks k₀ s' (if status = OK then [] else leaked env s.kernel) ∧ s'.ev.fd = s.ev.fd := by
  unfold respond at hok
  split_ifs at hok with hstatus
  · obtain ⟨⟨code, t⟩, ht, hok⟩ := Run.bind_eq_ok.1 hok
    obtain rfl := Except.ok.inj hok
    have hframe := responseHandle_descriptors ht
    rw [if_pos hstatus]
    refine ⟨Leaks.congr (s := s) ?_ hframe, congrArg (fun d => d.2.2) hframe⟩
    unfold Leaks
    rw [List.append_nil]
    exact h
  · rw [if_neg hstatus]
    exact responseAssembleErrBuffer_leaks h hok

/-- Closing the connection may close its socket. -/
theorem connectionDisconnect_leaks (h : Leaks k₀ s leak) (hsocket : s.ev.fd ≤ k₀.nextFd) :
    Leaks k₀ s.connectionDisconnect leak := by
  unfold connectionDisconnect
  simp only
  split_ifs
  · exact h
  · exact Kernel.Holds.close_old h hsocket

/-- The resource is closed at the end. -/
theorem httpRequestHandleUnint_holds (h : Leaks k₀ s leak) :
    k₀.Holds s.httpRequestHandleUnint.kernel leak := by
  unfold Leaks at h
  by_cases hfd : s.handler.resourceFd > 0
  · have hclose : s.httpRequestHandleUnint = s.touchHandler.closeFd s.handler.resourceFd := if_pos hfd
    rw [heldResource_of_pos hfd] at h
    rw [hclose]
    exact h.close
  · have hnothing : s.httpRequestHandleUnint = s.touchHandler := if_neg hfd
    rw [heldResource_of_not_pos hfd] at h
    rw [hnothing]
    exact h

theorem finishRequest_holds (h : Leaks k₀ s leak) (hsocket : s.ev.fd ≤ k₀.nextFd) :
    k₀.Holds s.finishRequest.kernel leak := by
  refine httpRequestHandleUnint_holds ?_
  split_ifs
  · exact h
  · exact connectionDisconnect_leaks (s := s.touchHandler) h hsocket

/-- **What a call leaves open.** -/
theorem httpRequest_holds (hsocket : s.SocketOpen) (h : s.httpRequest env = .ok s') :
    ∃ status s₁, s.handleRequest env = .ok (status, s₁) ∧
      s.kernel.Holds s'.kernel (if status = OK then [] else leaked env s₁.kernel) := by
  obtain ⟨status, s₁, s₂, s₃, h1, h2, h3, rfl⟩ := httpRequest_eq_ok.1 h
  have hholds := handleRequest_holds h1
  have hev : s₁.ev = s.ev := (handlerLoop_handled h1).ev
  unfold releaseRead at h2
  obtain ⟨rb, -, h2⟩ := Run.bind_eq_ok.1 h2
  obtain rfl := Except.ok.inj h2
  obtain ⟨hleaks, hev'⟩ := respond_leaks (s := s₁.touchHandler.touchConn.setRead rb) hholds h3
  refine ⟨status, s₁, h1, finishRequest_holds hleaks ?_⟩
  rw [hev']
  show s₁.ev.fd ≤ _
  rw [hev]
  exact hsocket

/-- **The request lives on, for its descriptor to be read, exactly when it does not close at once.** -/
theorem handlerLive_iff (hw : s.conn.ringBufferWrite.Inv) (ha : s.Alive)
    (h : s.httpRequest env = .ok s') : s'.handlerLive = true ↔ ¬ s.ClosesAtOnce env := by
  have hkept : s'.life = s.life → s'.handlerLive = true := fun hlife =>
    (congrArg (fun l => l.2.2.1) hlife).trans ha.handler
  obtain ⟨-, -, -, hout⟩ := httpRequest_outcome hw ha h
  cases hout with
  | freed closes touched empty freed =>
    have hdead : s'.handlerLive = false := congrArg (fun l => l.2.2.1) freed
    exact iff_of_false (by rw [hdead]; decide) (not_not_intro closes)
  | closing not_closes short life => exact iff_of_true (hkept life) not_closes
  | kept not_closes persists head_eq stream file life => exact iff_of_true (hkept life) not_closes

/-- **What a call has obtained from `openat` is closed**: every descriptor exactly once, and where
`http_request_handle_unint` reads the one that it closes, the request is not freed. -/
structure Balances (s s' : WebSession) : Prop where
  once : s'.kernel.Balanced s.kernel
  live : s'.handlerLive = true

/-- **Descriptors are balanced exactly when** the request does not close the connection at once, and
no empty `error.html` is sent: the message is complete, so that no error is answered; or there is no
`error.html`; or its size, as an `int`, is positive. -/
theorem descriptors_balanced_iff {pre m post : List Byte} (hreads : s.Reads pre m post)
    (hw : s.conn.ringBufferWrite.Inv) (ha : s.Alive) (hsocket : s.SocketOpen)
    (h : s.httpRequest env = .ok s') :
    s.Balances s' ↔ ¬ s.ClosesAtOnce env ∧ ((∃ l hs ws tail, Complete env m post l hs ws tail) ∨
      env.root (str "error.html") = none ∨ 0 < errorSize env) := by
  obtain ⟨status, s₁, h1, hholds⟩ := httpRequest_holds hsocket h
  have hcases := (handleRequest_cases hreads h1).2
  have honce : s'.kernel.Balanced s.kernel ↔ (∃ l hs ws tail, Complete env m post l hs ws tail) ∨
      env.root (str "error.html") = none ∨ 0 < errorSize env := by
    rw [hholds.balanced_iff, ← leaked_eq_nil_iff env s₁.kernel]
    by_cases hok : status = OK
    · rw [if_pos hok]
      exact iff_of_true rfl (Or.inl (hcases hok))
    · rw [if_neg hok]
      refine (or_iff_right ?_).symm
      rintro ⟨l, hs, ws, tail, hcomplete⟩
      obtain ⟨t, ht, -⟩ := hcomplete.ok hreads
      exact hok (congrArg Prod.fst (Run.ok_unique h1 ht))
  rw [← honce, ← handlerLive_iff hw ha h]
  exact ⟨fun hb => ⟨hb.live, hb.once⟩, fun hb => ⟨hb.2, hb.1⟩⟩

/-- A socket whose descriptor is the last one in use, with a line that is not a request. -/
def lastInUse : WebSession :=
  { saysNothing with kernel := { saysNothing.kernel with nextFd := 5 } }

/-- The descriptor of a page that has something to send is closed. -/
theorem descriptors_balanced_iff_shortPage : ∃ s', lastInUse.httpRequest shortPage = .ok s' ∧
    lastInUse.Balances s' := by
  have hreturns : (lastInUse.httpRequest shortPage).map connLive = .ok true := by
    decide +kernel
  have hstatus : (lastInUse.handleRequest shortPage).map Prod.fst = .ok 400 := by
    decide +kernel
  obtain ⟨s', hs', -⟩ := Run.map_eq_ok.1 hreturns
  have hreads := received_reads (str "x\r\n\r\n")
  refine ⟨s', hs', (descriptors_balanced_iff (s := lastInUse)
    ⟨hreads.mem, hreads.start, hreads.end_⟩ RingBuffer.new_inv ⟨rfl, rfl, rfl, rfl⟩ le_rfl hs').2
    ⟨?_, Or.inr (Or.inr (by decide +kernel))⟩⟩
  rintro ⟨s₁, -, -, hok, -⟩
  rw [hok] at hstatus
  cases hstatus

/-- **An empty `error.html`** is opened and never closed. -/
theorem not_balanced : ¬ ∀ (env : Env) (s s' : WebSession), s.conn.ringBufferRead.Inv →
    s.conn.ringBufferWrite.Inv → s.Alive → s.SocketOpen → s.httpRequest env = .ok s' →
      s.Balances s' := by
  intro h
  have hleaks : (lastInUse.httpRequest .oneFile).map
      (fun s' => decide (s'.kernel.Balanced lastInUse.kernel)) = .ok false := by
    decide +kernel
  obtain ⟨s', hs', hnot⟩ := Run.map_eq_ok.1 hleaks
  exact of_decide_eq_false hnot (h .oneFile lastInUse s' (received_inv _) RingBuffer.new_inv
    ⟨rfl, rfl, rfl, rfl⟩ le_rfl hs').once

end Session

end MWebServer
