import MWebServer.Web.Unfinished

/-!
# What a message opens

`request_handle_request_line` opens a resource where the request line is accepted, and
records its size.  Nothing else does, and nothing behind it changes either.

* `openResource_as` — what opening a path leads to depends on the path alone.
* `handleRequest_settled` — what the handlers leave of an accepted request line.
* `handleRequest_sizeFound` — where a response finds its `resource_size`.
-/

namespace MWebServer

/-! ## What a path leads to -/

/-- What `request_handle_request_line` opens under a path: a directory stands for its
`index.html`. -/
def Env.target (env : Env) (path : List Byte) : Option Inode :=
  match env.root path with
  | some (.dir _ index) => index
  | target => target

/-- What it makes of the URL. -/
def openedUrl (env : Env) (path : List Byte) (url : ReqUrl) : ReqUrl :=
  match env.root path with
  | some (.dir _ _) => { url with mimeExtension := .ofLit "html" }
  | _ => url

/-- The message begins with a request line that leads to a resource. -/
def Opens (env : Env) (m : List Byte) : Prop :=
  ∃ l : RequestLine, l.bytes <+: m ∧ l.VersionOk ∧ l.HasPath ∧ (env.target l.openedPath).isSome

namespace Session

variable {env env' : Env} {s t s' t' : WebSession}

theorem found_iff {path : List Byte} : Found env path ↔ (env.target path).isSome := by
  unfold Found Env.target
  cases env.root path with
  | none => simp
  | some inode => cases inode <;> simp

/-- What opening a path makes of a session. -/
inductive OpenedAs (env : Env) (path : List Byte) (s : WebSession) : Int × WebSession → Prop
  | missing {s' : WebSession} (target : env.target path = none) (conn : s'.conn = s.conn)
      (handler : s'.handler = s.handler) : OpenedAs env path s (404, s')
  | opened {s' : WebSession} {inode : Inode} {fd : Int} (target : env.target path = some inode)
      (conn : s'.conn = s.conn) (fd_pos : 0 < fd) (file : s'.kernel.file fd = some inode)
      (handler : s'.handler = { s.handler with
        par := s.handler.par.setUrl (openedUrl env path s.handler.par.url)
        resourceFd := fd
        resourceSize := toInt inode.stSize
        reqHandler := some .headers }) : OpenedAs env path s (OK, s')

/-- **What opening a path leads to depends on the path alone**, but for the descriptor. -/
theorem openResource_as (env : Env) (path : List Byte) (s : WebSession) :
    OpenedAs env path s (s.openResource env path) := by
  unfold openResource syscall
  cases hroot : env.root path with
  | none => exact .missing (by unfold Env.target; rw [hroot]) rfl rfl
  | some inode =>
    cases inode with
    | file content =>
      refine .opened (by unfold Env.target; rw [hroot]) rfl
        (Kernel.openat_pos env.rootdirFd path _ s.kernel)
        (Kernel.file_openat env.rootdirFd path _ s.kernel) ?_
      unfold openedUrl
      rw [hroot]
      rfl
    | dir size index =>
      let dir := s.kernel.openat env.rootdirFd path (some (.dir size index))
      cases index with
      | none => exact .missing (by unfold Env.target; rw [hroot]) rfl rfl
      | some html =>
        refine .opened (by unfold Env.target; rw [hroot]) rfl
          (Kernel.openat_pos dir.1 (str "index.html") html dir.2)
          (Kernel.file_openat dir.1 (str "index.html") html dir.2) ?_
        unfold openedUrl
        rw [hroot]
        rfl

/-! ## Behind an accepted line -/

/-- The message opens a resource exactly where its request line is accepted. -/
theorem opens_iff {l : RequestLine} {m : List Byte} (hl : l.bytes <+: m) :
    Opens env m ↔ AcceptsLine env l := by
  unfold AcceptsLine
  rw [found_iff]
  constructor
  · rintro ⟨l', hl', hv, hpath, htarget⟩
    obtain ⟨hopened, hhas, hversion⟩ := RequestLine.unique hl hl'
    exact ⟨hversion.1 hv, hhas.1 hpath, hopened ▸ htarget⟩
  · rintro ⟨hv, hpath, htarget⟩
    exact ⟨l, hl, hv, hpath, htarget⟩

/-- What an accepted request line leaves for the response: the resource is open, and the archive
keeps what `ar` has recorded of the line. -/
structure Settled (ar : ParseArchive) (inode : Inode) (s : WebSession) : Prop where
  line : LineKept ar s.handler.par
  file : s.kernel.file s.handler.resourceFd = some inode
  size : s.handler.resourceSize = toInt inode.stSize

/-- The headers and the body keep it. -/
theorem Settled.later {ar : ParseArchive} {inode : Inode} {hd : ReqHandler} {status : Int}
    (h : s.Settled ar inode) (hline : hd ≠ .requestLine) (hreq : s.handler.reqHandler = some hd)
    (hok : s.callHandler env hd = .ok (status, s')) :
    s'.Settled ar inode ∧ (status = OK → s'.handler.reqHandler ≠ some .requestLine) := by
  cases hd with
  | requestLine => exact absurd rfl hline
  | headers =>
    obtain ⟨mem, ar', req, -, hread, rfl, hnext⟩ := requestHandleHeaders_frame hok
    refine ⟨⟨h.line.trans hread.toLineKept, h.file, h.size⟩, fun _ => ?_⟩
    show req ≠ _
    rcases hnext (by rw [hreq]; exact Option.some_ne_none _) with rfl | rfl
    · rw [hreq]
      decide
    · decide
  | body =>
    obtain ⟨ar', req, hkept, rfl, hnext⟩ := requestHandleBody_frame hok
    refine ⟨⟨h.line.trans hkept, h.file, h.size⟩, fun hstatus => ?_⟩
    show req ≠ _
    rw [hnext hstatus]
    exact nofun

/-- **What the handlers leave of an accepted request line** depends on the message and the files
alone, whatever they answer. -/
theorem handleRequest_settled (pre : List Byte) (l : RequestLine) (rest : List Byte) :
    ∃ url : ReqUrl, url.mimeExtension.Within (pre ++ (l.bytes ++ rest)).length ∧
      ∀ {env : Env} {s s' : WebSession} {post : List Byte} {status : Int}, AcceptsLine env l →
        s.Reads pre (l.bytes ++ rest) post → s.handleRequest env = .ok (status, s') →
          ∃ inode, env.target l.openedPath = some inode ∧
            s'.Settled (l.parsed pre.length (openedUrl env l.openedPath url)) inode := by
  obtain ⟨url, line, -, hmime, hspec⟩ := requestHandleRequestLine_line pre rest l
  refine ⟨url, hmime, ?_⟩
  rintro env s s' post status ⟨hv, hpath, hfound⟩ hreads hok
  obtain ⟨inode, htarget⟩ := Option.isSome_iff_exists.1 (found_iff.1 hfound)
  refine ⟨inode, htarget, ?_⟩
  let Kept : WebSession → Prop := fun t =>
    t.Settled (l.parsed pre.length (openedUrl env l.openedPath url)) inode
  let First : WebSession → Prop := fun t => t.handler.reqHandler = some .requestLine ∧
    t.Reads pre (l.bytes ++ rest) post ∧ t.handler.par = parseArchiveInit
  let Later : Int → WebSession → Prop := fun code t =>
    Kept t ∧ (code = OK → t.handler.reqHandler ≠ some .requestLine)
  have hfirst : First s.httpRequestHandleReset.touchConn := ⟨rfl, reads_reset hreads, rfl⟩
  refine (handlerLoop_rule (I := fun t => First t ∨ Later OK t) (J := Later) (fun t => Or.inr) ?_
    (Or.inl hfirst) hok).1
  rintro t hd code t' (⟨hreq, hreads, hpar⟩ | ⟨hkept, hlater⟩) hhd hcall
  · -- the line is looked up
    obtain rfl := Option.some.inj (hreq.symm.trans hhd)
    have hline : t.requestHandleRequestLine env = .ok (code, t') := hcall
    rw [hspec hreads hpar, if_neg (not_not_intro hv), if_pos hpath] at hline
    have hopened := openResource_as env l.openedPath (t.lineRead pre line rest post l url)
    rw [Except.ok.inj hline] at hopened
    cases hopened with
    | missing target =>
      rw [htarget] at target
      cases target
    | @opened _ inode' fd target conn fd_pos file handler =>
      obtain rfl := Option.some.inj (htarget.symm.trans target)
      refine ⟨⟨?_, ?_, ?_⟩, fun _ => ?_⟩
      · rw [handler]
        exact ⟨rfl, rfl, rfl⟩
      · rw [handler]
        exact file
      · rw [handler]
      · rw [handler]
        show some ReqHandler.headers ≠ _
        decide
  · exact hkept.later (fun hc => hlater rfl (by rw [hhd, hc])) hhd hcall

/-- The extension that is recorded is that of an index, or lies inside the message. -/
theorem within_openedUrl {path : List Byte} {url : ReqUrl} {n : Nat}
    (h : url.mimeExtension.Within n) : (openedUrl env path url).mimeExtension.Within n := by
  unfold openedUrl
  split
  · trivial
  · exact h

/-- A message that is answered `OK` has an accepted line. -/
theorem opens_of_ok {m post : List Byte} (hreads : s.Reads [] m post)
    (hok : s.handleRequest env = .ok (OK, s')) :
    ∃ l rest, m = l.bytes ++ rest ∧ AcceptsLine env l := by
  obtain ⟨l, hs, ws, tail, hcomplete⟩ := (handleRequest_cases hreads hok).2 rfl
  exact ⟨l, _, hcomplete.split, hcomplete.accepts⟩

/-- **The extension of a message that is answered `OK`** lies inside the message, unless it is that
of an index. -/
theorem within_of_ok {m post : List Byte} (hreads : s.Reads [] m post)
    (hok : s.handleRequest env = .ok (OK, s')) :
    s'.handler.par.url.mimeExtension.Within m.length := by
  obtain ⟨l, rest, rfl, hl⟩ := opens_of_ok hreads hok
  obtain ⟨url, hmime, hsettled⟩ := handleRequest_settled [] l rest
  obtain ⟨inode, -, h⟩ := hsettled hl hreads hok
  rw [h.line.url]
  exact within_openedUrl hmime

/-! ## The size of a resource -/

/-- What is answered `OK` behind the request line opens a resource. -/
theorem opens_of_requestLine_ok {pre m post : List Byte} (hreads : s.Reads pre m post)
    (hpar : s.handler.par = parseArchiveInit)
    (hok : s.requestHandleRequestLine env = .ok (OK, s')) : Opens env m := by
  obtain ⟨l, rest, rfl⟩ := exists_prefix_of_ok hreads hpar hok
  obtain ⟨hv, hpath, -⟩ := requestHandleRequestLine_ok hreads hpar hok
  obtain ⟨url, line, -, -, hspec⟩ := requestHandleRequestLine_line pre rest l
  rw [hspec hreads hpar, if_neg (not_not_intro hv), if_pos hpath] at hok
  have hopened := openResource_as env l.openedPath (s.lineRead pre line rest post l url)
  rw [Except.ok.inj hok] at hopened
  cases hopened with
  | opened target => exact ⟨l, List.prefix_append _ _, hv, hpath, by rw [target]; rfl⟩

/-- A request line that is refused leaves the size as it was. -/
theorem resourceSize_of_requestLine {status : Int}
    (hok : s.requestHandleRequestLine env = .ok (status, s')) (hne : status ≠ OK) :
    s'.handler.resourceSize = s.handler.resourceSize := by
  rcases requestHandleRequestLine_cases hok with ⟨par, -, rfl⟩ | ⟨par, mem, path, -, hopen⟩
  · rfl
  · have hopened := openResource_as env path ((s.touchHandler.touchConn.setPar par).setReadMem mem)
    rw [hopen] at hopened
    cases hopened with
    | missing target conn handler =>
      rw [handler]
      rfl
    | opened => exact absurd rfl hne

/-- **Where a response to `m` finds `resource_size`**: the resource that the message opens has that
size, as an `int`; a message that opens nothing finds what an earlier request has left. -/
def SizeFound (env : Env) (m : List Byte) (s : WebSession) (size : Int) : Prop :=
  (∃ l : RequestLine, l.bytes <+: m ∧ AcceptsLine env l ∧
      ∃ inode, env.target l.openedPath = some inode ∧ size = toInt inode.stSize) ∨
    (¬ Opens env m ∧ size = s.handler.resourceSize)

theorem SizeFound.unique {m : List Byte} {a b : Int} (ha : s.SizeFound env m a)
    (hb : s.SizeFound env m b) : a = b := by
  rcases ha with ⟨l, hl, hacc, inode, htarget, rfl⟩ | ⟨hclosed, rfl⟩ <;>
    rcases hb with ⟨l', hl', hacc', inode', htarget', rfl⟩ | ⟨hclosed', rfl⟩
  · rw [(RequestLine.unique hl hl').1, htarget] at htarget'
    rw [Option.some.inj htarget']
  · exact absurd ((opens_iff hl).2 hacc) hclosed'
  · exact absurd ((opens_iff hl').2 hacc') hclosed
  · rfl

/-- **The handlers leave the size that is found**, whatever they answer. -/
theorem handleRequest_sizeFound {pre m post : List Byte} {status : Int}
    (hreads : s.Reads pre m post) (hok : s.handleRequest env = .ok (status, s')) :
    s.SizeFound env m s'.handler.resourceSize := by
  by_cases hopens : Opens env m
  · obtain ⟨l, ⟨rest, rfl⟩, -⟩ := id hopens
    have hl := List.prefix_append l.bytes rest
    have hacc := (opens_iff hl).1 hopens
    obtain ⟨url, -, hsettled⟩ := handleRequest_settled pre l rest
    obtain ⟨inode, htarget, h⟩ := hsettled hacc hreads hok
    exact Or.inl ⟨l, hl, hacc, inode, htarget, h.size⟩
  · refine Or.inr ⟨hopens, ?_⟩
    obtain ⟨code, u, hcall, hdecides⟩ := exists_first hok
    have hne : code ≠ OK := by
      rintro rfl
      exact hopens (opens_of_requestLine_ok (reads_reset hreads) rfl hcall)
    obtain ⟨rfl, rfl⟩ := hdecides hne
    exact (resourceSize_of_requestLine (s := s.httpRequestHandleReset.touchConn) hcall hne).trans rfl

end Session

end MWebServer
