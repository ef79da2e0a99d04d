import MWebServer.Lib.LastChoice
import MWebServer.Web.HeaderErrors

/-!
# The keep-alive decision

The version of the request line decides first whether the connection is kept, and every
`Connection` header may decide again.  `request_handle_hd_connection` compares its value
with `keep-alive` and `close`, ignoring case, up to the length of the word and not of the
value: `strncasecmp` finds the word at the beginning of the value (`caseequal_word`).

* `wholeChoice`, `prefixChoice` — what a value chooses, and what it is taken to choose.
* `handleHeaderLine_keepAlive` — one header line.
* `keepAlive_section` — the whole section, by `headers_reach_body_rule`.
* `keepAlive_iff` — when the decision is that of whole values.
-/

namespace MWebServer

open LastChoice

/-! ## The comparison -/

/-- A word in lower case, of bytes that can stand in a value. -/
def CaseWord (w : List Byte) : Prop := ∀ c ∈ w, toLower c = c ∧ c ≠ 0 ∧ c ≠ chr '\r'

instance (w : List Byte) : Decidable (CaseWord w) := inferInstanceAs (Decidable (∀ c ∈ w, _))

theorem toNat_sub_ne_zero {a b : Byte} (h : a ≠ b) : ((a.toNat : Int) - b.toNat) ≠ 0 := by
  have hne : a.toNat ≠ b.toNat := fun heq => h (UInt8.toNat_inj.1 heq)
  omega

/-- The comparison of a word with a value that a carriage return ends. -/
theorem strncasecmp_word {w : List Byte} (hw : CaseWord w) (val tail : List Byte) :
    ∃ d, strncasecmp (val ++ chr '\r' :: tail) (w ++ [0]) w.length = .ok d ∧
      (d = 0 ↔ w <+: val.map toLower) := by
  induction w generalizing val with
  | nil => exact ⟨0, by cases val <;> rfl, by simp⟩
  | cons b w ih =>
    obtain ⟨hlower, hb0, hbcr⟩ := hw b (by simp)
    cases val with
    | nil =>
      -- the carriage return is no byte of the word
      have hne : toLower (chr '\r') ≠ toLower b := by
        rw [hlower]
        exact fun h => hbcr h.symm
      exact ⟨_, if_pos hne, iff_of_false (toNat_sub_ne_zero hne) (by simp)⟩
    | cons a val =>
      rw [List.map_cons, List.cons_prefix_cons]
      by_cases hab : toLower a = toLower b
      · have ha : a ≠ 0 := by
          rintro rfl
          rw [hlower] at hab
          exact hb0 hab.symm
        obtain ⟨d, hd, hiff⟩ := ih (fun c hc => hw c (by simp [hc])) val
        refine ⟨d, ?_, ?_⟩
        · rw [List.cons_append, List.cons_append, List.length_cons, strncasecmp,
            if_neg (not_not_intro hab), if_neg ha, hd]
        · rw [hiff, hab, hlower]
          simp
      · refine ⟨_, if_pos hab, iff_of_false (toNat_sub_ne_zero hab) ?_⟩
        rintro ⟨heq, -⟩
        exact hab (by rw [hlower, heq])

/-- **`ssstr_caseequal` on a value** asks whether the value begins with the word. -/
theorem Ssstr.caseequal_word {w : List Byte} (hw : CaseWord w) (pre val tail : List Byte) (len : Nat) :
    (slice pre.length len).caseequal (pre ++ (val ++ chr '\r' :: tail)) w =
      .ok (decide (w <+: val.map toLower)) := by
  obtain ⟨d, hd, hiff⟩ := strncasecmp_word hw val tail
  unfold caseequal
  simp only [slice, CharPtr.tail, List.drop_left, Run.ok_bind, hd]
  exact congrArg Except.ok (decide_eq_decide.2 hiff)

/-! ## What a value chooses -/

/-- What a value chooses when it is one of the two words, ignoring case. -/
def wholeChoice (val : List Byte) : Option Bool :=
  if val.map toLower = str "keep-alive" then some true
  else if val.map toLower = str "close" then some false
  else none

/-- What a value chooses when it begins with one of the two words. -/
def prefixChoice (val : List Byte) : Option Bool :=
  if str "keep-alive" <+: val.map toLower then some true
  else if str "close" <+: val.map toLower then some false
  else none

/-- Only `Connection` headers choose. -/
def headerChoice (choice : List Byte → Option Bool) (l : HeaderLine) : Option Bool :=
  if l.key = str "connection" then choice l.val else none

/-- A word is no beginning of the other. -/
theorem extends_prefixChoice : Extends (headerChoice prefixChoice) (headerChoice wholeChoice) := by
  intro l b h
  have hclose : ¬ str "keep-alive" <+: str "close" := by decide +kernel
  unfold headerChoice at h ⊢
  by_cases hkey : l.key = str "connection"
  · rw [if_pos hkey] at h ⊢
    unfold wholeChoice at h
    unfold prefixChoice
    by_cases hkeep : l.val.map toLower = str "keep-alive"
    · rw [if_pos hkeep] at h
      rw [hkeep, if_pos (List.prefix_refl _), h]
    · rw [if_neg hkeep] at h
      by_cases hcl : l.val.map toLower = str "close"
      · rw [if_pos hcl] at h
        rw [hcl, if_neg hclose, if_pos (List.prefix_refl _), h]
      · rw [if_neg hcl] at h
        cases h
  · rw [if_neg hkey] at h
    cases h

/-! ## One header line -/

variable {beyond : List Byte}

/-- Only `connection` is handled by `request_handle_hd_connection`. -/
theorem hfList_connection : ∀ hf ∈ hfList,
    hf.func = .connection ↔ str hf.hd = str "connection" := by
  decide +kernel

section Line

variable {mem : Mem} {hf : HeaderFunc} {ar : ParseArchive} {pre val tail : List Byte}

/-- **`request_handle_hd_connection`** takes a value for the word it begins with. -/
theorem requestHandleHdConnection_eq (hmem : hf ∈ hfList) (hfunc : hf.func = .connection)
    (hval : ar.headerVal = .slice pre.length val.length) :
    requestHandleHdConnection (pre ++ (val ++ chr '\r' :: tail)) hf ar =
      .ok (match prefixChoice val with
        | some b => (OK, { requestHandleHdBase hf ar with keepAlive := b })
        | none => (400, requestHandleHdBase hf ar)) := by
  have hslot : (requestHandleHdBase hf ar).reqHeaders .connection = .slice pre.length val.length := by
    rw [← (hfList_offset hf hmem).2.1 hfunc]
    simp [requestHandleHdBase, hval]
  have hkeep := Ssstr.caseequal_word (show CaseWord (str "keep-alive") by decide +kernel) pre val tail
    val.length
  have hclose := Ssstr.caseequal_word (show CaseWord (str "close") by decide +kernel) pre val tail
    val.length
  simp only [requestHandleHdConnection, hslot, hkeep, Run.ok_bind]
  unfold prefixChoice
  by_cases h1 : str "keep-alive" <+: val.map toLower
  · simp only [h1, decide_true, if_true]
    rfl
  · simp only [h1, decide_false, Bool.false_eq_true, if_false, hclose, Run.ok_bind]
    by_cases h2 : str "close" <+: val.map toLower
    · simp only [h2, decide_true, if_true]
      rfl
    · simp only [h2, decide_false, Bool.false_eq_true, if_false]
      rfl

end Line

/-- **One header line**: a `Connection` header decides for the word its value begins with. -/
theorem handleHeaderLine_keepAlive {pre post : List Byte} {l : HeaderLine} {ar ar' : ParseArchive}
    {mem : Mem} {status : Int}
    (hname : ar.headerName = .slice (pre.length + l.lead.length) l.name.length)
    (hval : ar.headerVal = .slice (pre.length + l.valOffset) l.val.length)
    (h : handleHeaderLine beyond (pre ++ (l.bytes ++ post)) ar = .ok (mem, status, ar')) :
    ar'.keepAlive = (headerChoice prefixChoice l).getD ar.keepAlive := by
  unfold headerChoice
  rcases handleHeaderLine_by (show str HeaderSlot.connection.headerName = str "connection" from rfl)
    hfList_connection hname h with
    ⟨hkey, hf, hmem, hfunc, hcall⟩ | ⟨hkey, rfl | ⟨hf, hfunc, hcall⟩⟩
  · obtain ⟨front, hfront, hsplit⟩ := l.lowered_split pre post
    rw [hfront] at hval
    rw [if_pos hkey]
    simp only [HeaderFunc.call, hfunc] at hcall
    rw [hsplit, requestHandleHdConnection_eq hmem hfunc hval] at hcall
    have hpair := Except.ok.inj hcall
    cases hchoice : prefixChoice l.val with
    | some b =>
      rw [hchoice] at hpair
      obtain rfl : _ = ar' := congrArg Prod.snd hpair
      rfl
    | none =>
      rw [hchoice] at hpair
      obtain rfl : _ = ar' := congrArg Prod.snd hpair
      rfl
  · rw [if_neg hkey]
    rfl
  · rw [if_neg hkey]
    exact (call_fields hcall).1 hfunc

/-! ## The section -/

/-- `keep_alive` after some lines, when the version has set it to `base`. -/
def Decided (base : Bool) (done : List HeaderLine) (_ : List Byte) (ar : ParseArchive) : Prop :=
  ar.keepAlive = decision (headerChoice prefixChoice) base done

/-- Every line keeps it. -/
theorem keptByLines_decided (base : Bool) : KeptByLines beyond (Decided base) where
  bare := by
    intro done behind ar ar' h hbare
    have hkeep : ar'.bare.keepAlive = ar.bare.keepAlive := by rw [hbare]
    exact Eq.trans hkeep h
  line := by
    intro pre post done l ar ar' mem status h hname hval hhandle
    unfold Decided at h ⊢
    rw [handleHeaderLine_keepAlive hname hval hhandle, h, decision_concat]

/-- The handlers come to the body once. -/
theorem LoopReaches.body_unique {env : Env} {k k' : Nat} {s t t' : WebSession}
    (h : LoopReaches env k s t) (h' : LoopReaches env k' s t')
    (hbody : t.handler.reqHandler = some .body) (hbody' : t'.handler.reqHandler = some .body) :
    t = t' := by
  -- the handler of the body ends the loop
  have hend : ∀ {j : Nat} {u v : WebSession}, LoopReaches env j u v →
      u.handler.reqHandler = some .body → u = v := by
    intro j u v huv hu
    cases huv with
    | refl => rfl
    | @call _ _ w _ hd handler ok next rest =>
      obtain rfl : hd = .body := Option.some.inj (handler.symm.trans hu)
      obtain ⟨ar, req, -, rfl, hnone⟩ := Session.requestHandleBody_frame ok
      exact absurd (hnone rfl) next
  induction h generalizing k' with
  | refl s => exact hend h' hbody
  | @call k s u t hd handler ok next rest ih =>
    cases h' with
    | refl => exact (hend (.call handler ok next rest) hbody').symm
    | @call _ _ u' _ hd' handler' ok' next' rest' =>
      obtain rfl : hd' = hd := Option.some.inj (handler'.symm.trans handler)
      obtain rfl : u' = u := congrArg Prod.snd (Run.ok_unique ok' ok)
      exact ih rest' hbody

namespace Session

/-- **`keep_alive` at the end of the section**: the last `Connection` header whose value begins
with one of the two words has decided, or the version. -/
theorem keepAlive_section (env : Env) (s s₁ s₂ : WebSession) (l : RequestLine)
    (hs : List HeaderLine) (body : List Byte) (n : Nat) (hinv : s.conn.ringBufferRead.Inv)
    (hread : s.conn.ringBufferRead.content = l.bytes ++ (headerSection hs ++ body))
    (hpar : s.handler.par = parseArchiveInit)
    (hok : s.requestHandleRequestLine env = .ok (OK, s₁)) (hreach : LoopReaches env n s₁ s₂)
    (hbody : s₂.handler.reqHandler = some .body) :
    s₂.handler.par.keepAlive = decision (headerChoice prefixChoice) l.keepAlive hs := by
  obtain ⟨pre, post, hreads⟩ := exists_reads hinv
  rw [hread] at hreads
  obtain ⟨line, -, hat⟩ := atHeader_of_ok hreads hpar hok
  obtain ⟨-, -, url, line', inode, -, hopen⟩ := requestHandleRequestLine_ok hreads hpar hok
  obtain ⟨url', hpar₁⟩ := hopen.par
  have hbase : Decided l.keepAlive [] (headerSection hs ++ body ++ post) s₁.handler.par := by
    unfold Decided
    rw [hpar₁]
    rfl
  obtain ⟨k, t, -, hreach', hat', hdecided⟩ := headers_reach_body_rule env
    (keptByLines_decided l.keepAlive) hs.length le_rfl hat hbase
  obtain rfl := hreach.body_unique hreach' hbody hat'.reqHandler
  exact hdecided

/-- **The keep-alive decision** is that of the last `Connection` header that is one of the two
words as a whole, or of the version, if and only if the last one that begins with a word is this
word as a whole, or chooses what had been decided without it. -/
theorem keepAlive_iff (env : Env) (s s₁ s₂ : WebSession) (l : RequestLine)
    (hs : List HeaderLine) (body : List Byte) (n : Nat) (hinv : s.conn.ringBufferRead.Inv)
    (hread : s.conn.ringBufferRead.content = l.bytes ++ (headerSection hs ++ body))
    (hpar : s.handler.par = parseArchiveInit)
    (hok : s.requestHandleRequestLine env = .ok (OK, s₁)) (hreach : LoopReaches env n s₁ s₂)
    (hbody : s₂.handler.reqHandler = some .body) :
    s₂.handler.par.keepAlive = decision (headerChoice wholeChoice) l.keepAlive hs ↔
      ∀ hs₁ g hs₂ b, hs = hs₁ ++ g :: hs₂ → headerChoice prefixChoice g = some b →
        (∀ h ∈ hs₂, headerChoice prefixChoice h = none) →
        headerChoice wholeChoice g = some b ∨
          decision (headerChoice wholeChoice) l.keepAlive hs₁ = b := by
  rw [keepAlive_section env s s₁ s₂ l hs body n hinv hread hpar hok hreach hbody]
  exact decision_eq_iff extends_prefixChoice l.keepAlive hs

end Session

namespace HeaderLine

/-- `Connection: close` -/
def connectionClose : HeaderLine :=
  .connectionSays (str "close") (by decide +kernel) ⟨chr 'c', rfl, by decide⟩

/-- `Connection: closed` -/
def connectionClosed : HeaderLine :=
  .connectionSays (str "closed") (by decide +kernel) ⟨chr 'c', rfl, by decide⟩

/-- `Connection: keep-alive` -/
def connectionKeepAlive : HeaderLine :=
  .connectionSays (str "keep-alive") (by decide +kernel) ⟨chr 'k', rfl, by decide⟩

end HeaderLine

namespace Session

/-- A request for the root with the headers `hs`. -/
def getsRoot (hs : List HeaderLine) : WebSession :=
  received (RequestLine.getRoot.bytes ++ (headerSection hs ++ []))

/-- Its headers are read to the end. -/
theorem exists_getsRoot (hs : List HeaderLine) : ∃ s₁ k s₂,
    (getsRoot hs).requestHandleRequestLine .oneFile = .ok (OK, s₁) ∧
      LoopReaches .oneFile k s₁ s₂ ∧ s₂.handler.reqHandler = some .body := by
  have hreads := received_reads (RequestLine.getRoot.bytes ++ (headerSection hs ++ []))
  obtain ⟨url, line, -, hspec⟩ := @requestHandleRequestLine_spec .oneFile _ _ _ _ _ hreads rfl
  rw [if_neg (not_not_intro (by decide +kernel)), if_pos (by decide +kernel)] at hspec
  have hok : (getsRoot hs).requestHandleRequestLine .oneFile = .ok (OK, _) := hspec
  obtain ⟨line', -, hat⟩ := atHeader_of_ok hreads rfl hok
  obtain ⟨k, s₂, -, hreach, hbody⟩ := headers_reach_body .oneFile hs.length le_rfl hat
  exact ⟨_, k, s₂, hok, hreach, hbody.reqHandler⟩

/-- Of four `Connection` headers the third decides, the last to say one of the two words: the first
is longer than its word, but what it chooses is put right, and the fourth says nothing. -/
theorem keepAlive_lastWord :
    let hs := [HeaderLine.connectionClosed, .connectionClose, .connectionKeepAlive, .connectionX]
    ∃ s₁ k s₂, (getsRoot hs).requestHandleRequestLine .oneFile = .ok (OK, s₁) ∧
      LoopReaches .oneFile k s₁ s₂ ∧ s₂.handler.par.keepAlive = true := by
  intro hs
  obtain ⟨s₁, k, s₂, hok, hreach, hbody⟩ := exists_getsRoot hs
  refine ⟨s₁, k, s₂, hok, hreach, ?_⟩
  have hdecides : decision (headerChoice wholeChoice) RequestLine.getRoot.keepAlive hs = true := by
    decide +kernel
  rw [← hdecides]
  refine (keepAlive_iff .oneFile (getsRoot hs) s₁ s₂ .getRoot hs [] k (received_inv _)
    (received_content _) rfl hok hreach hbody).2 ?_
  -- only the third header begins with a word and has none behind it that does
  have hthird : headerChoice prefixChoice HeaderLine.connectionKeepAlive = some true := by
    decide +kernel
  have hwhole : headerChoice wholeChoice HeaderLine.connectionKeepAlive = some true := by
    decide +kernel
  have hfourth : headerChoice prefixChoice HeaderLine.connectionX = none := by decide +kernel
  intro hs₁ g hs₂ b hsplit hchoice hlast
  rcases hs₁ with _ | ⟨h₁, _ | ⟨h₂, _ | ⟨h₃, _ | ⟨h₄, hs₁⟩⟩⟩⟩
  · obtain ⟨-, rfl⟩ := List.cons.inj hsplit
    exact absurd (hthird.symm.trans (hlast _ (by simp))) (by simp)
  · obtain ⟨-, hsplit⟩ := List.cons.inj hsplit
    obtain ⟨-, rfl⟩ := List.cons.inj hsplit
    exact absurd (hthird.symm.trans (hlast _ (by simp))) (by simp)
  · obtain ⟨-, hsplit⟩ := List.cons.inj hsplit
    obtain ⟨-, hsplit⟩ := List.cons.inj hsplit
    obtain ⟨rfl, -⟩ := List.cons.inj hsplit
    exact Or.inl (hwhole.trans (hthird.symm.trans hchoice))
  · obtain ⟨-, hsplit⟩ := List.cons.inj hsplit
    obtain ⟨-, hsplit⟩ := List.cons.inj hsplit
    obtain ⟨-, hsplit⟩ := List.cons.inj hsplit
    obtain ⟨rfl, -⟩ := List.cons.inj hsplit
    exact absurd (hfourth.symm.trans hchoice) (by simp)
  · simp [hs] at hsplit

/-- **A longer value** closes the connection. -/
theorem not_keepAlive_whole : ¬ ∀ (env : Env) (s s₁ s₂ : WebSession) (l : RequestLine)
    (hs : List HeaderLine) (body : List Byte) (n : Nat), s.conn.ringBufferRead.Inv →
      s.conn.ringBufferRead.content = l.bytes ++ (headerSection hs ++ body) →
      s.handler.par = parseArchiveInit → s.requestHandleRequestLine env = .ok (OK, s₁) →
      LoopReaches env n s₁ s₂ → s₂.handler.reqHandler = some .body →
      s₂.handler.par.keepAlive = decision (headerChoice wholeChoice) l.keepAlive hs := by
  intro h
  obtain ⟨s₁, k, s₂, hok, hreach, hbody⟩ := exists_getsRoot [.connectionClosed]
  have hwhole := h .oneFile _ s₁ s₂ .getRoot [.connectionClosed] [] k (received_inv _)
    (received_content _) rfl hok hreach hbody
  have hbegins := keepAlive_section .oneFile _ s₁ s₂ .getRoot [.connectionClosed] [] k
    (received_inv _) (received_content _) rfl hok hreach hbody
  have hdiffer : decision (headerChoice prefixChoice) RequestLine.getRoot.keepAlive
      [.connectionClosed] ≠ decision (headerChoice wholeChoice) RequestLine.getRoot.keepAlive
      [.connectionClosed] := by
    decide +kernel
  exact hdiffer (hbegins.symm.trans hwhole)

end Session

end MWebServer
