import MWebServer.Web.Delivery
import MWebServer.Web.ErrorPage

/-!
# The size of the file

`st_size` is narrowed to the `int` of `resource_size`, which the head prints with `%d`, and
widened to the `size_t` that `sendfile` is called with.  A file of more than `INT_MAX` bytes
keeps its size in neither.

* `headLines_declaresLength_iff` — the head announces `resource_size`, and no other number.
* `sizeExact_iff` — both numbers are the size of the file exactly up to `INT_MAX`.
-/

namespace MWebServer

variable {env : Env}

/-- **What fits keeps its value**, and nothing else does. -/
theorem toInt_eq_iff (n : Nat) : toInt n = n ↔ (n : Int) ≤ intMax := by
  constructor
  · intro h
    have hlt : toInt n < (2 ^ 32 + 1) / 2 := Int.bmod_lt (by decide)
    unfold intMax
    omega
  · exact toInt_of_le (Int.natCast_nonneg n)

namespace Session

variable {s s₁ s₂ s' : WebSession}

/-! ## The two numbers -/

/-- The count that `response_handle_send_file` asks `sendfile` for. -/
def sendfileCount (s : WebSession) : Nat := toSizeT s.handler.resourceSize

theorem responseHandleSendFile_eq (env : Env) (s : WebSession) :
    s.responseHandleSendFile env =
      let t := s.touchHandler.touchConn
      let r := t.syscall (Kernel.sendfile env t.handler.resourceFd s.sendfileCount)
      if r.1 = 0 ∨ t.handler.resourceSize = r.1 then (OK, r.2.setResponseDone) else (500, r.2) := rfl

/-- What is sent before the file leaves the count alone. -/
theorem sendfileCount_of_head {r : Int × WebSession} (hw : s.conn.ringBufferWrite.Inv) (ha : s.Alive)
    (h : s.responseHandleSendLineAndHeader env = .ok r) : r.2.sendfileCount = s.sendfileCount := by
  obtain ⟨lines, ret, u, -, rfl, -, hhandler, -⟩ := responseHandleSendLineAndHeader_cases hw ha h
  have hsize : (u.headSent ret).2.handler.resourceSize = u.handler.resourceSize := by
    unfold headSent
    simp only
    split_ifs <;> rfl
  unfold sendfileCount
  rw [hsize, hhandler]

/-- **A head announces `resource_size`**, and no other number. -/
theorem headLines_declaresLength_iff {lines : List (List Byte)} {n : Nat}
    (h : s.headLines env = .ok lines) : DeclaresLength lines n ↔ s.handler.resourceSize = n := by
  obtain ⟨line, hline, h⟩ := Run.bind_eq_ok.1 h
  obtain rfl := Except.ok.inj h
  have hconnection : ∀ x, str "Content-Length: " ++ x ≠ connectionLine env s.handler s.conn := by
    unfold connectionLine
    split_ifs <;> exact append_ne_append 9 (by decide) (by decide) (by decide) _
  have htimeout : ∀ x, str "Content-Length: " ++ x ≠ timeoutLine env s.handler := by
    unfold timeoutLine
    split_ifs
    · exact append_ne_append 1 (by decide) (by decide) (by decide) _
    · exact fun x => List.append_ne_nil_of_left_ne_nil (by decide) x
  have hafter : ∀ l ∈ [connectionLine env s.handler s.conn, timeoutLine env s.handler],
      ∀ x, str "Content-Length: " ++ x ≠ l :=
    List.forall_mem_cons.2 ⟨hconnection, List.forall_mem_singleton.2 htimeout⟩
  exact declaresLength_head hline hafter

/-- **The size goes through exactly**: the head of the response announces it, and it is what
`sendfile` is asked for behind the head. -/
structure SizeExact (env : Env) (s : WebSession) (n : Nat) : Prop where
  declared : ∃ lines, s.headLines env = .ok lines ∧ DeclaresLength lines n
  asked : ∀ r, s.responseHandleSendLineAndHeader env = .ok r → r.2.sendfileCount = n

/-- **The size of a file goes through exactly when it is at most `INT_MAX`.** -/
theorem sizeExact_iff (env : Env) (s s₁ : WebSession) (content : List Byte)
    (hw : s.conn.ringBufferWrite.Inv) (hr : s.conn.ringBufferRead.Inv) (ha : s.Alive)
    (hparsed : s.handleRequest env = .ok (OK, s₁))
    (hfile : s₁.kernel.fileContent s₁.handler.resourceFd = some content) :
    ∃ s₂, s₁.releaseRead s.conn.ringBufferRead.readableBytes = .ok s₂ ∧
      (s₂.SizeExact env content.length ↔ (content.length : Int) ≤ intMax) := by
  obtain ⟨rb, h2, -⟩ := handleRequest_releases hr ha hparsed
  have hrel := handleRequest_released hw ha hparsed h2
  have hsize : (s₁.setRead rb).handler.resourceSize = toInt content.length := by
    show s₁.handler.resourceSize = _
    exact handleRequest_resourceSize hr ha hparsed hfile
  refine ⟨s₁.setRead rb, h2, ?_⟩
  constructor
  · rintro ⟨⟨lines, hlines, hdeclared⟩, -⟩
    rw [headLines_declaresLength_iff hlines, hsize, toInt_eq_iff] at hdeclared
    exact hdeclared
  · intro hfits
    have hexact : toInt content.length = content.length := (toInt_eq_iff _).2 hfits
    obtain ⟨lines, hlines⟩ := headLines_returns env (s := s₁.setRead rb)
      (handleRequest_read ha hparsed).statusCode
    refine ⟨⟨lines, hlines, ?_⟩, fun r hhead => ?_⟩
    · rw [headLines_declaresLength_iff hlines, hsize, hexact]
    · rw [sendfileCount_of_head hrel.write hrel.alive hhead, sendfileCount, hsize, hexact,
        toSizeT_of_le (Int.natCast_nonneg _) hfits, Int.toNat_natCast]

/-- A file of one byte. -/
theorem sizeExact_oneByte : ∃ s₁ s₂, askedForByte.handleRequest (oneByte 1000) = .ok (OK, s₁) ∧
    s₁.releaseRead askedForByte.conn.ringBufferRead.readableBytes = .ok s₂ ∧
      s₂.SizeExact (oneByte 1000) 1 := by
  have hparsed : (askedForByte.handleRequest (oneByte 1000)).map (fun r =>
      (r.1, r.2.kernel.fileContent r.2.handler.resourceFd)) = .ok (OK, some [chr 'x']) := by
    decide +kernel
  obtain ⟨⟨status, s₁⟩, h1, hfile⟩ := Run.map_eq_ok.1 hparsed
  obtain ⟨rfl, hfile⟩ := Prod.mk.inj hfile
  obtain ⟨s₂, h2, hiff⟩ := sizeExact_iff (oneByte 1000) askedForByte s₁ _ RingBuffer.new_inv
    (received_inv _) ⟨rfl, rfl, rfl, rfl⟩ h1 hfile
  exact ⟨s₁, s₂, h1, h2, hiff.2 (by decide)⟩

/-! ## A file of two gigabytes -/

/-- A server with one file, at every path. -/
def onlyFile (content : List Byte) : Env :=
  { Env.oneFile with root := fun _ => some (.file content) }

/-- A file that is found is opened. -/
theorem openResource_file {path content : List Byte} (hroot : env.root path = some (.file content))
    (s : WebSession) : (s.openResource env path).2.kernel.fileContent
      (s.openResource env path).2.handler.resourceFd = some content := by
  unfold openResource syscall
  simp only [hroot]
  exact Kernel.fileContent_openat env.rootdirFd path content s.kernel

/-- The only file is the one that is opened. -/
theorem handleRequest_onlyFile {content : List Byte} (hr : s.conn.ringBufferRead.Inv) (ha : s.Alive)
    (h : s.handleRequest (onlyFile content) = .ok (OK, s₁)) :
    s₁.kernel.fileContent s₁.handler.resourceFd = some content := by
  obtain ⟨hconn, -, -, -, hpar, hreq, -⟩ := reset_frame ha
  have hinv : s.httpRequestHandleReset.touchConn.conn.ringBufferRead.Inv := by
    rw [hconn]
    exact hr
  let J : Int → WebSession → Prop := fun status t => status = OK →
    t.kernel.fileContent t.handler.resourceFd = some content
  refine (handlerLoop_stages (J := J) ?_ ?_ ?_ hinv hpar hreq h) rfl
  · rintro t t' status hinv hpar ht rfl
    -- whatever path the line has
    obtain ⟨l, rest, hread⟩ := exists_line_of_ok hinv hpar ht
    obtain ⟨pre, post, hreads⟩ := exists_reads hinv
    rw [hread] at hreads
    obtain ⟨hv, hpath, -⟩ := requestHandleRequestLine_ok hreads hpar ht
    obtain ⟨url, line, -, hspec⟩ := requestHandleRequestLine_spec hreads hpar
    rw [hspec, if_neg (not_not_intro hv), if_pos hpath] at ht
    obtain rfl := congrArg Prod.snd (Except.ok.inj ht)
    exact openResource_file rfl _
  · rintro t t' status hJ - ht -
    obtain ⟨mem, ar, req, -, -, rfl, -⟩ := requestHandleHeaders_frame ht
    exact hJ rfl
  · rintro t t' status hJ - ht -
    obtain ⟨ar, req, -, rfl, -⟩ := requestHandleBody_frame ht
    exact hJ rfl

/-- **The size of a file of `2 ^ 31` bytes is lost.** -/
theorem not_sizeExact : ¬ ∀ (env : Env) (s s₁ : WebSession) (content : List Byte),
    s.conn.ringBufferWrite.Inv → s.conn.ringBufferRead.Inv → s.Alive →
      s.handleRequest env = .ok (OK, s₁) →
        s₁.kernel.fileContent s₁.handler.resourceFd = some content →
          ∃ s₂, s₁.releaseRead s.conn.ringBufferRead.readableBytes = .ok s₂ ∧
            s₂.SizeExact env content.length := by
  intro h
  let content : List Byte := List.replicate (2 ^ 31) 0
  have hparsed : (askedForByte.handleRequest (onlyFile content)).map Prod.fst = .ok OK := by
    decide +kernel
  obtain ⟨⟨status, s₁⟩, h1, rfl⟩ := Run.map_eq_ok.1 hparsed
  have hr : askedForByte.conn.ringBufferRead.Inv := received_inv _
  have ha : askedForByte.Alive := ⟨rfl, rfl, rfl, rfl⟩
  have hfile := handleRequest_onlyFile hr ha h1
  obtain ⟨s₂, h2, ⟨lines, hlines, hdeclared⟩, -⟩ := h _ _ _ _ RingBuffer.new_inv hr ha h1 hfile
  -- the number in the head would be negative
  obtain ⟨rb, h2', -⟩ := handleRequest_releases hr ha h1
  obtain rfl := Run.ok_unique h2' h2
  have hlen : content.length = 2 ^ 31 := List.length_replicate
  have hsize : toInt content.length = content.length :=
    (handleRequest_resourceSize hr ha h1 hfile).symm.trans
      ((headLines_declaresLength_iff hlines).1 hdeclared)
  rw [hlen] at hsize
  exact absurd hsize (by decide)

end Session

end MWebServer
