import MWebServer.Web.ReadRoom

/-!
# The type that is announced

`response_append_content_type` looks the extension of the path up in `Mime_Dict`.  The
extension is a slice of the read buffer, and `http_request` has given the message back
by then: `ring_buffer_release_bytes` has overwritten it with zeros.

* `get_zeros` — no key of the dictionary is found there.
* `extensionKnown_of_ok` — the extension is a slice of the message, or that of an index.
* `announcesHtml_run` — so the type is the same in every head, whatever was asked for.
-/

namespace MWebServer

/-! ## A lookup in zeros -/

/-- A slice that points into the read buffer, or nowhere. -/
def Ssstr.NoLiteral (s : Ssstr) : Prop := ∀ lit, s.str ≠ .lit lit

/-- A slice of zeros is empty, or begins with a zero. -/
theorem bytes_zeros {key : Ssstr} {n : Nat} (hkey : key.NoLiteral) (hw : key.Within n) :
    (key.len ≤ 0 ∧ key.bytes (zeros n) = []) ∨ key.str = .null ∨
      ∃ t, key.bytes (zeros n) = 0 :: t := by
  obtain ⟨p, len⟩ := key
  cases p with
  | null => exact Or.inr (Or.inl rfl)
  | lit w => exact absurd rfl (hkey w)
  | buf off =>
    rcases le_or_gt len 0 with hlen | hlen
    · refine Or.inl ⟨hlen, ?_⟩
      show ((zeros n).drop off).take len.toNat = []
      rw [Int.toNat_eq_zero.2 hlen, List.take_zero]
    · obtain ⟨k, hk⟩ : ∃ k, len.toNat = k + 1 := ⟨len.toNat - 1, by omega⟩
      have hwithin : off + len.toNat ≤ n := hw
      refine Or.inr (Or.inr ⟨zeros k, ?_⟩)
      show ((zeros n).drop off).take len.toNat = _
      rw [zeros, List.drop_replicate, List.take_replicate, min_eq_left (by omega), hk]
      rfl

/-- No literal that begins with another byte is equal to it. -/
theorem cmp_zeros {key : Ssstr} {n : Nat} (hkey : key.NoLiteral) (hw : key.Within n) {w : String}
    {c : Byte} {t : List Byte} (hword : str w = c :: t) (hc : c ≠ 0) :
    Ssstr.cmp (zeros n) (.ofLit w) key ≠ 0 := by
  have hne : ¬ ((Ssstr.ofLit w).str = key.str ∧ (Ssstr.ofLit w).len = key.len) :=
    fun h => hkey _ h.1.symm
  have hnull : (Ssstr.ofLit w).str ≠ .null := nofun
  have hlen : (Ssstr.ofLit w).len = t.length + 1 := by
    show ((str w).length : Int) = _
    rw [hword, List.length_cons]
    rfl
  unfold Ssstr.cmp
  rw [if_neg hne, if_neg hnull, Ssstr.bytes_ofLit, hword]
  by_cases hkeyNull : key.str = .null
  · rw [if_pos hkeyNull]
    decide
  · rw [if_neg hkeyNull]
    rcases bytes_zeros hkey hw with ⟨hle, hbytes⟩ | hbytes | ⟨z, hbytes⟩
    · have hlonger : ¬ key.len = (Ssstr.ofLit w).len := by omega
      rw [hbytes, Ssstr.cmpLoop.eq_def]
      simp only
      rw [if_neg hlonger]
      split_ifs <;> decide
    · exact absurd hbytes hkeyNull
    · have hsigned : signedChar c ≠ signedChar 0 := fun h => hc (signedChar_injective h)
      rw [hbytes, Ssstr.cmpLoop]
      rcases lt_or_gt_of_ne hsigned with hlt | hgt
      · rw [if_pos hlt]
        exact neg_ne_zero.2 one_ne_zero
      · rw [if_neg (not_lt_of_gt hgt), if_pos hgt]
        exact one_ne_zero

/-- Every extension of `Mime_List` begins with a letter. -/
theorem mimeList_head : ∀ e ∈ mimeList, ∃ c t, str e.1 = c :: t ∧ c ≠ 0 := by
  have h : ∀ e ∈ mimeList, (str e.1).head?.any (· ≠ 0) = true := by decide +kernel
  intro e he
  cases hw : str e.1 with
  | nil => exact absurd (h e he) (by rw [hw]; decide)
  | cons c t =>
    have hc := h e he
    rw [hw] at hc
    exact ⟨c, t, rfl, by simpa using hc⟩

/-- **No key of `Mime_Dict` is found in zeros.** -/
theorem get_zeros {key : Ssstr} {n : Nat} (hkey : key.NoLiteral) (hw : key.Within n) :
    mimeDict.get (zeros n) key = (none, false) := by
  have hnone : (mimeDict.table (lotosHash (zeros n) key)).find?
      (fun p => Ssstr.cmp (zeros n) p.k key = 0) = none := by
    refine List.find?_eq_none.2 fun p hp => ?_
    obtain ⟨e, he, heq⟩ := List.mem_map.1 (Dict.mem_build hp)
    obtain ⟨c, t, hword, hc⟩ := mimeList_head e he
    obtain ⟨hk, -⟩ := Prod.mk.inj heq
    rw [← hk, decide_eq_true_eq]
    exact cmp_zeros hkey hw hword hc
  unfold Dict.get
  rw [Dict.chainGet_eq_find?, hnone]

/-! ## The extension of a request -/

/-- The extension points into the read buffer, or is that of an `index.html`. -/
def ExtensionKnown (url : ReqUrl) : Prop :=
  url.mimeExtension.NoLiteral ∨ url.mimeExtension = .ofLit "html"

/-- The scan for the extension records a slice. -/
theorem extensionLoop_noLiteral {mem : Mem} {abs absEnd n : Nat} {url url' : ReqUrl}
    (hurl : url.mimeExtension.NoLiteral) (h : extensionLoop mem abs absEnd n url = .ok url') :
    url'.mimeExtension.NoLiteral := by
  induction n with
  | zero =>
    rw [← Except.ok.inj h]
    exact hurl
  | succ n ih =>
    rw [extensionLoop] at h
    split at h
    · cases h
    · split_ifs at h
      · rw [← Except.ok.inj h]
        intro lit hlit
        cases hlit
      · rw [← Except.ok.inj h]
        exact hurl
      · exact ih h

theorem parseExtension_noLiteral {mem : Mem} {url url' : ReqUrl}
    (hurl : url.mimeExtension.NoLiteral) (h : parseExtension mem url = .ok url') :
    url'.mimeExtension.NoLiteral := by
  unfold parseExtension at h
  split at h
  · split_ifs at h
    rw [← Except.ok.inj h]
    exact hurl
  · split_ifs at h
    exact extensionLoop_noLiteral hurl h
  · cases h

/-- **`parse_request_line` records a slice**, or nothing. -/
theorem parseRequestLine_noLiteral {pre post m : List Byte} {r : Parsed}
    (hr : parseRequestLine (pre ++ (m ++ post)) pre.length m.length (freshArchive pre.length) =
      .ok r) (hok : r.code = OK) : r.ar.url.mimeExtension.NoLiteral := by
  obtain ⟨l, hl⟩ := parseRequestLine_sound pre post hr hok
  obtain ⟨url, hext, rfl⟩ := parseRequestLine_eq pre post hl hr
  refine parseExtension_noLiteral ?_ hext
  rw [splitUrl_mimeExtension]
  exact nofun

namespace Session

variable {env : Env} {s s' u v : WebSession} {t : Turn} {status : Int} {m : List Byte}

/-- Opening a path leaves the extension that was recorded, or takes that of the index. -/
theorem openResource_extensionKnown {path : List Byte} (h : ExtensionKnown s.handler.par.url) :
    ExtensionKnown (s.openResource env path).2.handler.par.url := by
  have hopened := openResource_as env path s
  generalize s.openResource env path = r at hopened
  cases hopened with
  | missing target conn handler =>
    simp only [handler]
    exact h
  | opened target conn fd_pos file handler =>
    simp only [handler]
    show ExtensionKnown (openedUrl env path s.handler.par.url)
    unfold openedUrl
    split
    · exact Or.inr rfl
    · exact h

theorem requestLineAccepted_extensionKnown (h : ExtensionKnown s.handler.par.url)
    (hok : s.requestLineAccepted env = .ok (status, s')) : ExtensionKnown s'.handler.par.url := by
  unfold requestLineAccepted at hok
  simp only at hok
  split_ifs at hok
  · obtain rfl := congrArg Prod.snd (Except.ok.inj hok)
    exact h
  · split at hok
    · cases hok
    · cases hok
    · obtain ⟨mem, -, hok⟩ := Run.bind_eq_ok.1 hok
      rw [show s' = _ from (congrArg Prod.snd (Except.ok.inj hok)).symm]
      exact openResource_extensionKnown h

/-- The handler of the request line. -/
theorem requestHandleRequestLine_extensionKnown (hinv : s.conn.ringBufferRead.Inv)
    (hpar : s.handler.par = parseArchiveInit) (hok : s.requestHandleRequestLine env = .ok (OK, s')) :
    ExtensionKnown s'.handler.par.url := by
  obtain ⟨l, rest, hread⟩ := exists_line_of_ok hinv hpar hok
  obtain ⟨pre, post, hreads⟩ := exists_reads hinv
  have hne : s.conn.ringBufferRead.content ≠ [] := by
    have := l.bytes_length
    rw [hread]
    intro hnil
    have hzero := congrArg List.length hnil
    simp only [List.length_append, List.length_nil] at hzero
    omega
  rw [requestHandleRequestLine_eq hreads hne hpar] at hok
  obtain ⟨r, hr, hok⟩ := Run.bind_eq_ok.1 hok
  by_cases hcode : r.code = OK
  · rw [if_pos hcode] at hok
    exact requestLineAccepted_extensionKnown (s := s.touchHandler.touchConn.setPar r.ar)
      (Or.inl (parseRequestLine_noLiteral hr hcode)) hok
  · rw [if_neg hcode] at hok
    have hst : (if r.code = AGAIN then AGAIN else 400) = OK := congrArg Prod.fst (Except.ok.inj hok)
    have hne : (if r.code = AGAIN then AGAIN else 400) ≠ OK := by split_ifs <;> decide
    exact absurd hst hne

/-- **What the handlers leave of the extension** when they end with `OK`. -/
theorem extensionKnown_of_ok (hr : s.conn.ringBufferRead.Inv)
    (h : s.handleRequest env = .ok (OK, s')) : ExtensionKnown s'.handler.par.url := by
  refine handlerLoop_stages (s := s.httpRequestHandleReset.touchConn)
    (J := fun status t => status = OK → ExtensionKnown t.handler.par.url) ?_ ?_ ?_ hr rfl rfl h rfl
  · rintro t t' status hinv hpar hline rfl
    exact requestHandleRequestLine_extensionKnown hinv hpar hline
  · intro t t' status hJ _ hheaders _
    obtain ⟨mem, ar, req, -, hon, rfl, -⟩ := requestHandleHeaders_frame hheaders
    show ExtensionKnown ar.url
    rw [hon.url]
    exact hJ rfl
  · intro t t' status hJ _ hbody _
    obtain ⟨ar, req, hkept, rfl, -⟩ := requestHandleBody_frame hbody
    show ExtensionKnown ar.url
    rw [hkept.url]
    exact hJ rfl

/-! ## One head -/

/-- The type that every response has. -/
def htmlLine : List Byte := str "Content-Type: text/html\r\n"

theorem contentTypeLine_html {mem : Mem} {r : Request} (h : contentType mem r = str "text/html") :
    contentTypeLine mem r = htmlLine := by
  unfold contentTypeLine
  rw [h]
  decide +kernel

/-- In zeros the type of a known extension is that of a page. -/
theorem contentType_of_known {r : Request} {n : Nat} (h : ExtensionKnown r.par.url)
    (hw : r.par.url.mimeExtension.Within n) : contentType (zeros n) r = str "text/html" := by
  unfold contentType
  split_ifs
  · rfl
  · rcases h with h | h
    · rw [get_zeros h hw]
      rfl
    · have hget : (mimeDict.get [] (.ofLit "html")).1.getD (str "text/html") = str "text/html" := by
        decide +kernel
      have hsame : mimeDict.get (zeros n) (.ofLit "html") = mimeDict.get [] (.ofLit "html") :=
        Dict.get_congr (mimeDict_keys _ _) rfl
      rw [h, hsame]
      exact hget

/-- **A head for a message that has been read.** -/
theorem WritesStatus.html {tail : List Byte} (h : u.WritesStatus env v) (ha : u.Alive)
    (hread : u.conn.ringBufferRead = held m tail) :
    contentTypeLine v.readMem v.handler = htmlLine := by
  refine contentTypeLine_html ?_
  cases h with
  | @served s₁ accepted release =>
    have hinv : u.conn.ringBufferRead.Inv := by rw [hread]; exact held_inv m tail
    have hmime := within_of_ok (reads_held hread) accepted
    obtain ⟨left, rfl⟩ := releaseRead_handled ha hread accepted release
    show contentType (zeros m.length ++ left) s₁.handler = _
    rw [contentType_zeros hmime]
    exact contentType_of_known (extensionKnown_of_ok hinv accepted) hmime
  | failed fails not_ok release mark =>
    rw [mark]
    rfl

/-! ## A run -/

/-- Every head that is written in this turn announces the one type. -/
def AnnouncesHtml (s : WebSession) (t : Turn) : Prop :=
  ∀ u, s.Calls t u → ∀ v, u.WritesStatus t.env v → contentTypeLine v.readMem v.handler = htmlLine

/-- **One turn.** -/
theorem announcesHtml_turn (h : s.Blank) : s.AnnouncesHtml t := by
  intro u hcalls v hv
  obtain ⟨-, -, ha⟩ := hcalls.session h.sturdy
  obtain ⟨hev, -, -, k, hread, hdata⟩ := hcalls
  obtain ⟨hsteady, block, hn⟩ := h hev
  obtain ⟨m, -, -, rfl⟩ := readBuffer_some ((hsteady.activate t.ready).alive hev) hn hread hdata
  exact hv.html ha rfl

/-- **Every head of every run announces `text/html`**, whatever is asked for. -/
theorem announcesHtml_run (connfd now : Int) (turns : List Turn) :
    Run.Meets turn AnnouncesHtml (start connfd now) turns :=
  Run.meets_of_invariant (fun _ _ _ h hok => blank_turn h hok) (fun _ _ h => announcesHtml_turn h)
    (blank_start connfd now) turns

end Session

end MWebServer
