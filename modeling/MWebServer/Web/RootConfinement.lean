import MWebServer.Lib.Walk
import MWebServer.Web.RequestLineHandler

/-!
# Confinement to the root directory

The handler of the request line takes the first slash off the path and hands the
rest to `openat`; it looks at no segment.  Whether the path stays in the root
directory is therefore up to the URL: `openat_confined_iff` says which URLs do.

* `Confined` — what a path handed to `openat` ought to be.
* `RequestLine.StaysInside` — the path of the URL, followed segment by segment from
  the root directory, does not leave it, and a second slash does not follow the first.
-/

namespace MWebServer

open Walk

/-! ## Paths -/

/-- The segments of a path. -/
def segments (path : List Byte) : List (List Byte) := path.splitOn (chr '/')

/-- What a segment does to the directory it is looked up in. -/
def segmentMove (seg : List Byte) : Move (List Byte) :=
  if seg = [] ∨ seg = str "." then .stay else if seg = str ".." then .up else .into seg

/-- A path that is not absolute and in no beginning of which there are more `..` than names of
files. -/
def Confined (path : List Byte) : Prop :=
  path.head? ≠ some (chr '/') ∧ ∀ k,
    ((segments path).take k).countP (fun seg => seg = str "..") ≤
      ((segments path).take k).countP fun seg => seg ≠ [] ∧ seg ≠ str "." ∧ seg ≠ str ".."

/-- The path, followed from the root directory, does not leave it. -/
def resolves (path : List Byte) : Bool := (resolve [] ((segments path).map segmentMove)).isSome

theorem segmentMove_isUp (seg : List Byte) :
    (segmentMove seg).isUp = decide (seg = str "..") := by
  unfold segmentMove
  split_ifs with h1 h2
  · rcases h1 with rfl | rfl <;> decide +kernel
  · simp [h2, Move.isUp]
  · simp [h2, Move.isUp]

theorem segmentMove_isInto (seg : List Byte) :
    (segmentMove seg).isInto = decide (seg ≠ [] ∧ seg ≠ str "." ∧ seg ≠ str "..") := by
  unfold segmentMove
  split_ifs with h1 h2
  · rcases h1 with rfl | rfl <;> simp [Move.isInto]
  · simp [h2, Move.isInto]
  · simp [not_or.1 h1, h2, Move.isInto]

/-- Counting and following come to the same. -/
theorem confined_iff (path : List Byte) :
    Confined path ↔ path.head? ≠ some (chr '/') ∧ resolves path = true := by
  have hmoves : ∀ k, ((segments path).map segmentMove).take k =
      ((segments path).take k).map segmentMove := fun k => by rw [List.map_take]
  unfold Confined resolves
  rw [resolve_isSome_iff]
  refine and_congr_right fun _ => forall_congr' fun k => ?_
  rw [hmoves, List.countP_map, List.countP_map, List.length_nil, Nat.zero_add]
  have hup : (Move.isUp ∘ segmentMove) = fun seg => decide (seg = str "..") :=
    funext segmentMove_isUp
  have hinto : (Move.isInto ∘ segmentMove) =
      fun seg => decide (seg ≠ [] ∧ seg ≠ str "." ∧ seg ≠ str "..") := funext segmentMove_isInto
  rw [hup, hinto]

/-- The slash in front changes nothing. -/
theorem resolves_cons_slash (path : List Byte) : resolves (chr '/' :: path) = resolves path := by
  have hseg : segments (chr '/' :: path) = [] :: segments path := by
    simp [segments, List.splitOn, List.splitOnP_cons_eq_if_modifyHead]
  unfold resolves
  rw [hseg, List.map_cons]
  rfl

theorem confined_dotSlash : Confined (str "./") :=
  (confined_iff _).2 ⟨by decide +kernel, by decide +kernel⟩

/-! ## What the handler opens -/

/-- The path of the URL does not lead out of the root directory. -/
def RequestLine.StaysInside (l : RequestLine) : Prop :=
  ¬ str "//" <+: l.pathString ∧ resolves l.pathString = true

instance (l : RequestLine) : Decidable l.StaysInside := inferInstanceAs (Decidable (_ ∧ _))

theorem RequestLine.confined_openedPath_iff (l : RequestLine) :
    Confined l.openedPath ↔ l.StaysInside := by
  obtain ⟨t, ht⟩ := l.exists_pathString
  have hdouble : str "//" <+: l.pathString ↔ t.head? = some (chr '/') := by
    rw [ht, show str "//" = [chr '/', chr '/'] from rfl]
    cases t <;> simp [List.cons_prefix_cons, eq_comm]
  unfold RequestLine.StaysInside RequestLine.openedPath
  rw [hdouble, ht, resolves_cons_slash]
  split_ifs with hone
  · -- the path is the slash alone
    have hsub : l.pathString.length ≤ l.path.length := by
      rw [l.pathString_eq]
      exact (List.takeWhile_sublist _).length_le
    have hnil : t = [] := by
      rw [ht, hone, List.length_cons] at hsub
      exact List.length_eq_zero_iff.1 (by omega)
    subst hnil
    exact iff_of_true confined_dotSlash ⟨by decide, by decide +kernel⟩
  · exact confined_iff t

/-- `request_handle_request_line` hands `path` to `openat(rootdir_fd, ...)`. -/
def Session.HandsToOpenat (env : Env) (s : WebSession) (path : List Byte) : Prop :=
  ∃ code s' fd more, s.requestHandleRequestLine env = .ok (code, s') ∧
    s'.kernel.opened = s.kernel.opened ++ ⟨env.rootdirFd, path, fd⟩ :: more

/-- The first call of `openat` is the one with the path. -/
theorem Session.openResource_opened (env : Env) (path : List Byte) (s : WebSession) :
    ∃ fd more, (s.openResource env path).2.kernel.opened =
      s.kernel.opened ++ ⟨env.rootdirFd, path, fd⟩ :: more := by
  unfold openResource syscall
  cases hroot : env.root path with
  | none => exact ⟨_, [], rfl⟩
  | some inode =>
    cases inode with
    | file content => exact ⟨_, [], rfl⟩
    | dir size index =>
      cases index with
      | none => exact ⟨_, _, List.append_assoc _ _ _⟩
      | some html => exact ⟨_, _, List.append_assoc _ _ _⟩

/-- **The one path that is handed to `openat`** on a message that begins with a line. -/
theorem Session.handsToOpenat_iff {env : Env} {s : WebSession} {l : RequestLine}
    {pre rest post : List Byte} (h : s.Reads pre (l.bytes ++ rest) post)
    (hpar : s.handler.par = parseArchiveInit) (path : List Byte) :
    s.HandsToOpenat env path ↔ l.VersionOk ∧ l.HasPath ∧ path = l.openedPath := by
  obtain ⟨url, line, -, hspec⟩ := @requestHandleRequestLine_spec env _ _ _ _ _ h hpar
  unfold HandsToOpenat
  by_cases hv : l.VersionOk
  · rw [if_neg (not_not_intro hv)] at hspec
    by_cases hpath : l.HasPath
    · rw [if_pos hpath] at hspec
      obtain ⟨fd, more, hopened⟩ := openResource_opened env l.openedPath
        (s.lineRead pre line rest post l url)
      constructor
      · rintro ⟨code, s', fd', more', hok, hopened'⟩
        rw [hspec] at hok
        obtain rfl : _ = s' := congrArg Prod.snd (Except.ok.inj hok)
        rw [hopened] at hopened'
        obtain ⟨hcall, -⟩ := List.cons.inj (List.append_cancel_left hopened')
        exact ⟨hv, hpath, (congrArg Opened.path hcall).symm⟩
      · rintro ⟨-, -, rfl⟩
        exact ⟨_, _, fd, more, hspec, hopened⟩
    · rw [if_neg hpath] at hspec
      simp [hspec, hpath]
  · rw [if_pos hv] at hspec
    refine iff_of_false ?_ fun h => hv h.1
    rintro ⟨code, s', fd, more, hok, hopened⟩
    rw [hspec] at hok
    obtain rfl : _ = s' := congrArg Prod.snd (Except.ok.inj hok)
    have hlen : s.kernel.opened.length = (s.kernel.opened ++ _ :: more).length :=
      congrArg List.length hopened
    simp at hlen

/-- **Root confinement.**  On a message that begins with a request line whose version passes,
the path handed to `openat` is confined if and only if the URL's path stays inside.  A line
without a recorded path opens nothing. -/
theorem openat_confined_iff (env : Env) (s : WebSession) (l : RequestLine) (rest : List Byte)
    (hinv : s.conn.ringBufferRead.Inv) (hread : s.conn.ringBufferRead.content = l.bytes ++ rest)
    (hpar : s.handler.par = parseArchiveInit) (hv : l.VersionOk) :
    (∀ path, s.HandsToOpenat env path → Confined path) ↔ (l.HasPath → l.StaysInside) := by
  obtain ⟨pre, post, hreads⟩ := Session.exists_reads hinv
  rw [hread] at hreads
  rw [← l.confined_openedPath_iff]
  simp only [Session.handsToOpenat_iff hreads hpar]
  constructor
  · intro h hpath
    exact h _ ⟨hv, hpath, rfl⟩
  · rintro h path ⟨-, hpath, rfl⟩
    exact h hpath

/-- `GET /a/../b HTTP/1.1` -/
def RequestLine.getUp : RequestLine :=
  { getRoot with
    url := str "/a/../b"
    url_chars := by decide +kernel
    url_head := rfl }

/-- A path that goes up and stays inside. -/
theorem openat_confined_up :
    (Session.received RequestLine.getUp.bytes).HandsToOpenat .oneFile (str "a/../b") ∧
      Confined (str "a/../b") := by
  have hreads := Session.received_reads RequestLine.getUp.bytes
  rw [← List.append_nil RequestLine.getUp.bytes] at hreads
  have hopened := (@Session.handsToOpenat_iff .oneFile _ _ _ _ _ hreads rfl (str "a/../b")).2
    ⟨by decide +kernel, Or.inl rfl, by decide +kernel⟩
  rw [List.append_nil] at hopened
  exact ⟨hopened, (openat_confined_iff .oneFile _ RequestLine.getUp [] (Session.received_inv _)
    (by rw [Session.received_content, List.append_nil]) rfl (by decide +kernel)).2
    (fun _ => by decide +kernel) _ hopened⟩

/-- **Two requests that leave the root directory**, one upwards and one by an absolute path. -/
theorem openat_not_confined :
    (Session.received (str "GET /../secret HTTP/1.1\r\n")).HandsToOpenat .oneFile
        (str "../secret") ∧ ¬ Confined (str "../secret") ∧
      (Session.received (str "GET //etc/passwd HTTP/1.1\r\n")).HandsToOpenat .oneFile
        (str "/etc/passwd") ∧ ¬ Confined (str "/etc/passwd") := by
  have hopens : ∀ data path, ((Session.received data).requestHandleRequestLine .oneFile).map
      (fun r => r.2.kernel.opened) = .ok [⟨3, path, 3⟩] →
        (Session.received data).HandsToOpenat .oneFile path := by
    intro data path h
    obtain ⟨r, hok, hopened⟩ := Run.map_eq_ok.1 h
    exact ⟨r.1, r.2, 3, [], hok, hopened⟩
  refine ⟨hopens _ _ (by decide +kernel), ?_, hopens _ _ (by decide +kernel), ?_⟩
  · rw [confined_iff]
    decide +kernel
  · rw [confined_iff]
    decide +kernel

end MWebServer
