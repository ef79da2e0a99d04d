import MWebServer.Web.ErrorPage
import MWebServer.Web.TurnCases

/-!
# Two connections with one message

Two sessions hold the same message at the beginning of their read buffers.  What the
requests before it have left in the two requests is arbitrary, and so is what stands
behind the message, in the block and beyond it.

Whether a resource is opened depends on the message alone (`Opens`), and so does all
that the response is made of (`Settled`).  Only the length of the body is read on behind
the message: one session may answer `OK` where the other asks for more.

* `handleRequest_both` — one message on two sessions (`Advanced`).
-/

namespace MWebServer

/-- The bytes `ring_buffer_release_bytes` leaves. -/
def zeros (n : Nat) : List Byte := List.replicate n 0

@[simp] theorem length_zeros (n : Nat) : (zeros n).length = n := List.length_replicate

namespace Session

variable {env env' : Env} {s t s' t' : WebSession}

/-! ## One session with a message -/

/-- The read buffer holds `m`, from the beginning of a block that goes on with `tail`. -/
def held (m tail : List Byte) : RingBuffer := ⟨0, m.length, (m.length + tail.length : Nat), m ++ tail⟩

theorem held_inv (m tail : List Byte) : (held m tail).Inv :=
  ⟨le_rfl, Int.natCast_nonneg _, by simp [held], by simp [held]⟩

@[simp] theorem readableBytes_held (m tail : List Byte) : (held m tail).readableBytes = m.length :=
  sub_zero _

theorem reads_held {m tail : List Byte} (h : s.conn.ringBufferRead = held m tail) :
    s.Reads [] m tail := by
  refine ⟨?_, ?_, ?_⟩
  · unfold readMem
    rw [h]
    rfl
  · rw [h]
    rfl
  · rw [h]
    simp [held]

/-- The handlers leave a message of the same length. -/
theorem held_of_read {m tail : List Byte} (ha : s.Alive) (h : s.conn.ringBufferRead = held m tail)
    {status : Int} (hok : s.handleRequest env = .ok (status, s')) :
    ∃ m' tail', m'.length = m.length ∧ tail'.length = tail.length ∧
      s'.conn.ringBufferRead = held m' tail' := by
  obtain ⟨mem, hlen, hconn⟩ := (handleRequest_read ha hok).conn
  have hmem : mem.length = m.length + tail.length := by
    rw [hlen, readMem, h]
    exact List.length_append
  refine ⟨mem.take m.length, mem.drop m.length, by simp [hmem], by simp [hmem], ?_⟩
  rw [hconn, h]
  simp [held, hmem]

/-- **A message whose header section has its end** ends too early exactly if its body is missing. -/
theorem unfinished_iff {l : RequestLine} {hs : List HeaderLine} {ws tail post : List Byte}
    (hl : AcceptsLine env l) (hws : ∀ c ∈ ws, isBlank c = true) (htail : blankLine ws <+: tail) :
    Unfinished env [] (l.bytes ++ (headerLines hs ++ tail)) post ↔
      BodyMissing (l.bytes ++ (headerLines hs ++ tail)) hs (tail ++ post ++ env.beyond) := by
  have hreads : ((start 0 0).setRead (held (l.bytes ++ (headerLines hs ++ tail)) post)).Reads []
      (l.bytes ++ (headerLines hs ++ tail)) post := reads_held rfl
  refine ⟨fun h => by_contra fun hbody => ?_, .body rfl hl hws htail⟩
  obtain ⟨s, hs, -⟩ := handleRequest_complete hreads hl hws htail
  obtain ⟨t, ht⟩ := h.again hreads
  rw [if_neg hbody] at hs
  exact absurd (congrArg Prod.fst (Run.ok_unique hs ht)) (show ¬ OK = AGAIN by decide)

/-! ## Two sessions with one message -/

/-- The same resource is open, with the same size. -/
structure SameResource (s t : WebSession) : Prop where
  size : t.handler.resourceSize = s.handler.resourceSize
  content : t.resource = s.resource

/-- The files, the clock and the settings are the same; the socket and the memory need not be. -/
def SameWorld (env env' : Env) : Prop :=
  ∃ send sendfile fresh beyond,
    env' = { env with send := send, sendfile := sendfile, fresh := fresh, beyond := beyond }

theorem SameWorld.refl (env : Env) : SameWorld env env :=
  ⟨env.send, env.sendfile, env.fresh, env.beyond, rfl⟩

theorem SameWorld.target (h : SameWorld env env') (path : List Byte) :
    env'.target path = env.target path := by
  obtain ⟨send, sendfile, fresh, beyond, rfl⟩ := h
  rfl

theorem SameWorld.openedUrl (h : SameWorld env env') (path : List Byte) (url : ReqUrl) :
    MWebServer.openedUrl env' path url = MWebServer.openedUrl env path url := by
  obtain ⟨send, sendfile, fresh, beyond, rfl⟩ := h
  rfl

theorem SameWorld.acceptsLine (h : SameWorld env env') {l : RequestLine} :
    AcceptsLine env' l ↔ AcceptsLine env l := by
  unfold AcceptsLine
  rw [found_iff, found_iff, h.target]

/-- What the handlers have made of one message `m` on two sessions. -/
inductive Advanced (env : Env) (m : List Byte) (s t : WebSession) :
    Int × WebSession → Int × WebSession → Prop
  /-- A resource is open; the answers differ at most in whether more is asked for. -/
  | opened {status status' : Int} {s' t' : WebSession} (opens : Opens env m)
      (same : SameResource s' t') (line : LineKept s'.handler.par t'.handler.par)
      (code : status' = status ∨ (status = OK ∧ status' = AGAIN) ∨ (status = AGAIN ∧ status' = OK))
      (decided : status = OK → status' = OK →
        t'.handler.par.keepAlive = s'.handler.par.keepAlive) :
      Advanced env m s t (status, s') (status', t')
  /-- The request line was refused. -/
  | refused {status : Int} {s' t' : WebSession} (closed : ¬ Opens env m) (fails : status ≠ OK)
      (par : t'.handler.par = s'.handler.par)
      (left : s'.handler.resourceSize = s.handler.resourceSize)
      (right : t'.handler.resourceSize = t.handler.resourceSize) :
      Advanced env m s t (status, s') (status, t')

section Both

variable {m post post' : List Byte} {status : Int}

/-- A call of `parse_request_line` does not depend on what stands behind the message. -/
theorem parseRequestLine_behind (pre m post post' : List Byte) :
    parseRequestLine (pre ++ (m ++ post)) pre.length m.length (freshArchive pre.length) =
      parseRequestLine (pre ++ (m ++ post')) pre.length m.length (freshArchive pre.length) := by
  have hscan : Scan.scanList (rlBody (pre ++ (m ++ post))) pre.length m (freshArchive pre.length) =
      Scan.scanList (rlBody (pre ++ (m ++ post'))) pre.length m (freshArchive pre.length) := by
    refine rlScan_congr (lineInv_fresh _) (by simp) ?_
    simp [← List.append_assoc]
  rw [parseRequestLine_fresh, parseRequestLine_fresh, hscan]

/-- **A message that opens nothing** is refused by its first handler, on both sessions alike. -/
theorem requestHandleRequestLine_closed (henv : SameWorld env env') (hs : s.Reads [] m post)
    (ht : t.Reads [] m post') (hm : m ≠ []) (hpar : s.handler.par = parseArchiveInit)
    (hpar' : t.handler.par = parseArchiveInit) (hclosed : ¬ Opens env m)
    (hok : s.requestHandleRequestLine env = .ok (status, s')) :
    ∃ t', t.requestHandleRequestLine env' = .ok (status, t') ∧ Advanced env m s t (status, s') (status, t') := by
  by_cases hline : ∃ l : RequestLine, l.bytes <+: m
  · obtain ⟨l, rest, rfl⟩ := hline
    have hrefused := mt (opens_iff (List.prefix_append l.bytes rest)).2 hclosed
    obtain ⟨url, line, -, -, hspec⟩ := requestHandleRequestLine_line [] rest l
    rw [hspec hs hpar] at hok
    rw [hspec ht hpar']
    by_cases hv : l.VersionOk
    · rw [if_neg (not_not_intro hv)] at hok ⊢
      split_ifs at hok ⊢ with hpath
      have hs' := openResource_as env l.openedPath (s.lineRead [] line rest post l url)
      have ht' := openResource_as env' l.openedPath (t.lineRead [] line rest post' l url)
      generalize (t.lineRead [] line rest post' l url).openResource env' l.openedPath = r at ht' ⊢
      rw [Except.ok.inj hok] at hs'
      cases hs' with
      | opened target =>
        exact absurd ⟨hv, hpath, found_iff.2 (by rw [target]; rfl)⟩ hrefused
      | missing target conn handler =>
        cases ht' with
        | opened target' =>
          rw [henv.target, target] at target'
          cases target'
        | @missing t' target' conn' handler' =>
          refine ⟨t', rfl, .refused hclosed (by decide) ?_ ?_ ?_⟩
          · rw [handler, handler']
            rfl
          · rw [handler]
            rfl
          · rw [handler']
            rfl
    · rw [if_pos hv] at hok ⊢
      obtain ⟨rfl, rfl⟩ := Prod.mk.inj (Except.ok.inj hok)
      exact ⟨_, rfl, .refused hclosed (by decide) rfl rfl rfl⟩
  · -- there is no line, or not yet one
    rw [requestHandleRequestLine_eq hs hm hpar, parseRequestLine_behind [] m post post'] at hok
    obtain ⟨r, hr, hok⟩ := Run.bind_eq_ok.1 hok
    have hcode : ¬ r.code = OK := fun hcode => hline (parseRequestLine_sound [] _ hr hcode)
    rw [if_neg hcode] at hok
    obtain ⟨rfl, rfl⟩ := Prod.mk.inj (Except.ok.inj hok)
    refine ⟨t.touchHandler.touchConn.setPar r.ar, ?_, .refused hclosed ?_ rfl rfl rfl⟩
    · rw [requestHandleRequestLine_eq ht hm hpar', hr, Run.ok_bind, if_neg hcode]
      rfl
    · split_ifs <;> decide

/-- The first handler of a message that opens nothing decides. -/
theorem handleRequest_closed (henv : SameWorld env env') (hs : s.Reads [] m post)
    (ht : t.Reads [] m post') (hm : m ≠ []) (hclosed : ¬ Opens env m)
    (hok : s.handleRequest env = .ok (status, s')) :
    ∃ t', t.handleRequest env' = .ok (status, t') ∧ Advanced env m s t (status, s') (status, t') := by
  obtain ⟨code, u, hcall, hdecides⟩ := exists_first hok
  obtain ⟨v, hcall', hadvanced⟩ := requestHandleRequestLine_closed henv (reads_reset hs)
    (reads_reset ht) hm rfl rfl hclosed hcall
  cases hadvanced with
  | opened opens => exact absurd opens hclosed
  | refused closed fails par left right =>
    obtain ⟨rfl, rfl⟩ := hdecides fails
    exact ⟨v, handleRequest_first hcall' fails, .refused closed fails par left right⟩

/-- **What the handlers answer behind an accepted line.**  The two sessions go through the same
header lines; only the length of the body may be read differently. -/
theorem handleRequest_codes {l : RequestLine} {rest : List Byte} (henv : SameWorld env env')
    (hs : s.Reads [] (l.bytes ++ rest) post) (ht : t.Reads [] (l.bytes ++ rest) post')
    (hl : AcceptsLine env l) (hok : s.handleRequest env = .ok (status, s')) :
    ∃ status' t', t.handleRequest env' = .ok (status', t') ∧
      (status' = status ∨ (status = OK ∧ status' = AGAIN) ∨ (status = AGAIN ∧ status' = OK)) ∧
      (status = OK → status' = OK → t'.handler.par.keepAlive = s'.handler.par.keepAlive) := by
  have hl' : AcceptsLine env' l := henv.acceptsLine.2 hl
  have hagain : ¬ AGAIN = OK := by decide
  have hbad : ¬ (400 : Int) = AGAIN := by decide
  obtain ⟨hs', tail, rfl, hno⟩ := exists_lines rest
  rcases handleRequest_accepted hs hl hno with ⟨hends, u, hu⟩ | ⟨u, hu⟩ | ⟨ws, hws, htail⟩
  · -- the bytes end inside a header line
    have hunfinished : Unfinished env' [] (l.bytes ++ (headerLines hs' ++ tail)) post' :=
      .headers rfl hl' hends
    obtain ⟨v, hv⟩ := hunfinished.again ht
    obtain ⟨rfl, rfl⟩ := Prod.mk.inj (Run.ok_unique hok hu)
    exact ⟨AGAIN, v, hv, Or.inl rfl, fun hc => absurd hc hagain⟩
  · -- something is no header line
    obtain ⟨rfl, rfl⟩ := Prod.mk.inj (Run.ok_unique hok hu)
    rcases handleRequest_accepted ht hl' hno with ⟨hends, v, hv⟩ | ⟨v, hv⟩ | ⟨ws, hws, htail⟩
    · have hunfinished : Unfinished env [] (l.bytes ++ (headerLines hs' ++ tail)) post :=
        .headers rfl hl hends
      obtain ⟨w, hw⟩ := hunfinished.again hs
      exact absurd (congrArg Prod.fst (Run.ok_unique hu hw)) hbad
    · exact ⟨400, v, hv, Or.inl rfl, fun hc => absurd hc (by decide)⟩
    · obtain ⟨w, hw, -⟩ := handleRequest_complete hs hl hws htail
      have hcode := congrArg Prod.fst (Run.ok_unique hu hw)
      simp only at hcode
      split_ifs at hcode <;> exact absurd hcode (by decide)
  · -- the header section has its end
    obtain ⟨u, hu, hkeep⟩ := handleRequest_complete hs hl hws htail
    obtain ⟨v, hv, hkeep'⟩ := handleRequest_complete ht hl' hws htail
    obtain ⟨rfl, rfl⟩ := Prod.mk.inj (Run.ok_unique hok hu)
    refine ⟨_, v, hv, ?_, fun _ _ => hkeep'.trans hkeep.symm⟩
    split_ifs
    · exact Or.inl rfl
    · exact Or.inr (Or.inl ⟨rfl, rfl⟩)
    · exact Or.inr (Or.inr ⟨rfl, rfl⟩)
    · exact Or.inl rfl

/-- **The handlers see nothing of the requests before but `resource_size`**, and nothing of what
stands behind the message but where it says how long the body is. -/
theorem handleRequest_both (henv : SameWorld env env') (hs : s.Reads [] m post)
    (ht : t.Reads [] m post') (hm : m ≠ []) (hok : s.handleRequest env = .ok (status, s')) :
    ∃ status' t', t.handleRequest env' = .ok (status', t') ∧
      Advanced env m s t (status, s') (status', t') := by
  by_cases hopens : Opens env m
  · obtain ⟨l, ⟨rest, rfl⟩, -⟩ := id hopens
    have hl := (opens_iff (List.prefix_append l.bytes rest)).1 hopens
    obtain ⟨status', t', hok', hcode, hdecided⟩ := handleRequest_codes henv hs ht hl hok
    obtain ⟨url, -, hsettled⟩ := handleRequest_settled [] l rest
    obtain ⟨inode, htarget, h⟩ := hsettled hl hs hok
    obtain ⟨inode', htarget', h'⟩ := hsettled (henv.acceptsLine.2 hl) ht hok'
    rw [henv.target] at htarget'
    obtain rfl := Option.some.inj (htarget.symm.trans htarget')
    rw [henv.openedUrl] at h'
    have hsame : SameResource s' t' := by
      refine ⟨h'.size.trans h.size.symm, ?_⟩
      unfold resource Kernel.fileContent
      rw [h.file, h'.file]
    have hline : LineKept s'.handler.par t'.handler.par :=
      ⟨h'.line.url.trans h.line.url.symm, h'.line.version.trans h.line.version.symm,
        h'.line.response.trans h.line.response.symm⟩
    exact ⟨status', t', hok', .opened hopens hsame hline hcode hdecided⟩
  · obtain ⟨t', hok', hadvanced⟩ := handleRequest_closed henv hs ht hm hopens hok
    exact ⟨status, t', hok', hadvanced⟩

end Both

end Session

end MWebServer
