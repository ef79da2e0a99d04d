import MWebServer.Mevent.Reading
import MWebServer.Web.Closing
import MWebServer.Web.ErrorPage
import MWebServer.Web.Unfinished

/-!
# The status of a response

One `int` holds the codes of the handlers and those of `HTTP_STATUS_MAP`.  Where the
handlers answer `OK` the status is 200, and otherwise it is their answer: an error of
the map, or `AGAIN`, which is 1 and has no entry in `Status_Table`.

* `WritesStatus.real_iff` — one call of `http_request`.
* `showsReal_iff` — a whole run: every status line it writes has an entry of the table
  exactly as long as no message ends too early.
-/

namespace MWebServer

variable {env : Env}

/-- An index into `Status_Table` whose entry is not `NULL`. -/
def RealStatus (code : Int) : Prop := ∃ text, statusTable code = .ok (some text)

theorem realStatus_iff (code : Int) :
    RealStatus code ↔ (statusTable code).map Option.isSome = .ok true := by
  unfold RealStatus
  rw [Run.map_eq_ok]
  constructor
  · rintro ⟨text, htext⟩
    exact ⟨some text, htext, rfl⟩
  · rintro ⟨entry, hentry, hsome⟩
    obtain ⟨text, rfl⟩ := Option.isSome_iff_exists.1 hsome
    exact ⟨text, hentry⟩

instance (code : Int) : Decidable (RealStatus code) := decidable_of_iff' _ (realStatus_iff code)

namespace Session

variable {s s' u v : WebSession} {t : Turn} {pre m post : List Byte} {status : Int}

/-- **Of what the handlers can answer, only `AGAIN` is no status**, once `OK` stands for 200. -/
theorem Answer.real_iff (h : Answer status) :
    RealStatus (if status = OK then 200 else status) ↔ status ≠ AGAIN := by
  rcases h with rfl | rfl | rfl | rfl | rfl <;> decide +kernel

/-! ## One call -/

/-- **`http_request` comes to `response_append_status_line`**: `v` holds the request the line is
written for. -/
inductive WritesStatus (env : Env) (s v : WebSession) : Prop
  | served {s₁ : WebSession} (accepted : s.handleRequest env = .ok (OK, s₁))
      (release : s₁.releaseRead s.conn.ringBufferRead.readableBytes = .ok v)
  | failed {status : Int} {s₁ s₂ : WebSession} (fails : s.handleRequest env = .ok (status, s₁))
      (not_ok : status ≠ OK)
      (release : s₁.releaseRead s.conn.ringBufferRead.readableBytes = .ok s₂)
      (mark : v = s₂.markError status)

/-- The status of the line is that of the handlers. -/
theorem WritesStatus.statusCode (h : s.WritesStatus env v) (hw : s.conn.ringBufferWrite.Inv)
    (ha : s.Alive) : ∃ status s₁, s.handleRequest env = .ok (status, s₁) ∧
      v.handler.statusCode = if status = OK then 200 else status := by
  cases h with
  | @served s₁ accepted release =>
    refine ⟨OK, s₁, accepted, ?_⟩
    rw [if_pos rfl, (handleRequest_released hw ha accepted release).handler]
    exact (handleRequest_read ha accepted).statusCode
  | @failed status s₁ s₂ fails not_ok release mark =>
    refine ⟨status, s₁, fails, ?_⟩
    rw [if_neg not_ok, mark]
    rfl

/-- **The status line has an entry of the table exactly if the message does not end too early.** -/
theorem WritesStatus.real_iff (h : s.WritesStatus env v) (hw : s.conn.ringBufferWrite.Inv)
    (hr : s.conn.ringBufferRead.Inv) (ha : s.Alive) (hreads : s.Reads pre m post) :
    RealStatus v.handler.statusCode ↔ ¬ Unfinished env pre m post := by
  obtain ⟨status, s₁, h1, hcode⟩ := h.statusCode hw ha
  rw [hcode, (handleRequest_code hr h1).real_iff, ← handleRequest_again_iff hreads h1]

/-- A message that ends too early is answered with a status line. -/
theorem Unfinished.writesStatus (h : Unfinished env pre m post) (hr : s.conn.ringBufferRead.Inv)
    (ha : s.Alive) (hreads : s.Reads pre m post) : ∃ v, s.WritesStatus env v := by
  obtain ⟨s₁, h1⟩ := h.again hreads
  obtain ⟨rb, hrelease, -⟩ := handleRequest_releases hr ha h1
  exact ⟨_, .failed h1 (by decide) hrelease rfl⟩

/-! ## One turn -/

/-- `http_request` is called in this turn, on the session `u`. -/
def Calls (s : WebSession) (t : Turn) (u : WebSession) : Prop :=
  s.evLive = true ∧ ¬ (s.activate t.ready).HungUp ∧ (s.activate t.ready).Readable ∧
    ∃ n, (s.activate t.ready).readBuffer t.env.fresh t.ready.incoming = .ok (n, u) ∧ n > 0

/-- A turn that hears something calls it, and no other does. -/
theorem hears_iff : s.Hears t ↔ ∃ u, s.Calls t u := by
  constructor
  · rintro ⟨hev, hup, hr, n, u, hread⟩
    exact ⟨u, hev, hup, hr, n, hread⟩
  · rintro ⟨u, hev, hup, hr, n, hread⟩
    exact ⟨hev, hup, hr, n, u, hread⟩

/-- A connection between two turns, with both buffers sound; or its event is gone. -/
def Sturdy (s : WebSession) : Prop :=
  s.evLive = true → s.Steady ∧ s.conn.ringBufferRead.Inv

/-- What `http_request` is called on. -/
theorem Calls.session (h : s.Calls t u) (hs : s.Sturdy) :
    u.conn.ringBufferWrite.Inv ∧ u.conn.ringBufferRead.Inv ∧ u.Alive := by
  obtain ⟨hev, -, -, n, hread, -⟩ := h
  obtain ⟨hsteady, hr⟩ := hs hev
  have hactive := hsteady.activate t.ready
  have hinv := readBuffer_inv (s := s.activate t.ready) hr hread
  obtain ⟨⟨rb, rfl⟩, -⟩ := readBuffer_frame (hactive.alive hev) hread
  exact ⟨hactive.write, hinv, (hactive.alive hev).of_life rfl rfl⟩

/-- The turn is this call, and the writable side behind it. -/
theorem Calls.turn_eq (h : s.Calls t u) (hs : s.Sturdy) :
    s.turn t = u.httpRequest t.env >>= fun u' => u'.eventHandlerOut t.env := by
  obtain ⟨-, -, ha⟩ := h.session hs
  obtain ⟨hev, hup, hr, n, hread, hdata⟩ := h
  have hactive := ((hs hev).1.activate t.ready).alive hev
  refine (epollerDispatch_active hev (Or.inr (Or.inl hr))).trans ?_
  unfold eventHandler eventReadableCallback onMessage
  simp only [hactive.touchEv]
  rw [if_neg hup, if_pos hr, hread]
  simp only [Run.ok_bind]
  rw [if_pos hdata, ha.touchConn]

/-- Every status line written in this turn has an entry of the table. -/
def ShowsReal (s : WebSession) (t : Turn) : Prop :=
  ∀ u, s.Calls t u → ∀ v, u.WritesStatus t.env v → RealStatus v.handler.statusCode

/-- What `http_request` is called on in this turn is a message that ends too early. -/
def EndsTooEarly (s : WebSession) (t : Turn) : Prop :=
  ∃ u, s.Calls t u ∧ ∃ pre m post, u.Reads pre m post ∧ Unfinished t.env pre m post

/-- **One turn.** -/
theorem showsReal_turn (h : s.Sturdy) : s.ShowsReal t ↔ ¬ s.EndsTooEarly t := by
  constructor
  · rintro hreal ⟨u, hcalls, pre, m, post, hreads, hearly⟩
    obtain ⟨hw, hr, ha⟩ := hcalls.session h
    obtain ⟨v, hv⟩ := hearly.writesStatus hr ha hreads
    exact (hv.real_iff hw hr ha hreads).1 (hreal u hcalls v hv) hearly
  · intro hnot u hcalls v hv
    obtain ⟨hw, hr, ha⟩ := hcalls.session h
    obtain ⟨pre, post, hreads⟩ := exists_reads hr
    exact (hv.real_iff hw hr ha hreads).2 fun hearly =>
      hnot ⟨u, hcalls, pre, _, post, hreads, hearly⟩

/-! ## A run -/

/-- **Every turn keeps both buffers sound.** -/
theorem sturdy_turn (h : s.Sturdy) (hok : s.turn t = .ok s') : s'.Sturdy := by
  by_cases hev : s.evLive = true
  · obtain ⟨hsteady, hr⟩ := h hev
    have hactive := hsteady.activate t.ready
    have hkeeps := turn_keeps (X := fun s => s.conn.ringBufferRead.Inv) hsteady hev (t := t) hr
      (fun _ hX => hX) ?_ ?_ hr hok
    · rcases hkeeps with hkept | hfreed
      · exact fun _ => hkept
      · exact fun hlive => Bool.noConfusion (hfreed.gone.2.symm.trans hlive)
    · intro u _ _ hu _ _ hX
      obtain ⟨n, rb, hread, ha, hsides⟩ := eventReadableCallback_cases (hactive.alive hev) hu
      have hw : ((s.activate t.ready).setRead rb).conn.ringBufferWrite.Inv := hactive.write
      have hinv := readBuffer_inv hX hread
      rcases hsides with ⟨-, hok⟩ | ⟨-, rfl⟩
      · exact httpRequest_readInv hw hinv ha hok
      · obtain ⟨hidle, -⟩ := connectionDisconnect_spec hw ha
        rw [hidle.read]
        exact hinv
    · rintro u v - - ⟨⟨rb, hconn⟩, -⟩ hX
      rw [hconn]
      exact hX
  · obtain rfl := turn_eq_self hev hok
    exact h

theorem sturdy_start (connfd now : Int) : (start connfd now).Sturdy :=
  fun _ => ⟨steady_start connfd now, RingBuffer.new_inv⟩

/-- **Every status line of a run has an entry of the table exactly as long as no message ends too
early.** -/
theorem showsReal_iff (connfd now : Int) (turns : List Turn) :
    Run.Meets turn ShowsReal (start connfd now) turns ↔
      Run.Meets turn (fun s t => ¬ s.EndsTooEarly t) (start connfd now) turns :=
  Run.meets_congr (fun _ _ _ h hok => sturdy_turn h hok) (fun _ _ h => showsReal_turn h)
    (sturdy_start connfd now) turns

/-- **The first bytes of a request line** are answered with the status 1. -/
theorem not_showsReal : ¬ ∀ (connfd now : Int) (turns : List Turn),
    Run.Meets turn ShowsReal (start connfd now) turns := by
  intro h
  let t := readsWith (some 1000) (str "GET / HT")
  let s := (start 5 0).activate t.ready
  have hrun : (s.readBuffer t.env.fresh t.ready.incoming >>= fun r =>
      (r.2.handleRequest t.env).map fun q => (r.1, q.1)) = .ok (8, AGAIN) := by
    decide +kernel
  obtain ⟨⟨n, u⟩, hread, hrun⟩ := Run.bind_eq_ok.1 hrun
  obtain ⟨⟨status, s₁⟩, h1, hval⟩ := Run.map_eq_ok.1 hrun
  obtain ⟨rfl, rfl⟩ := Prod.mk.inj hval
  have hcalls : (start 5 0).Calls t u := ⟨rfl, by decide, by decide, 8, hread, by decide⟩
  obtain ⟨-, hr, ha⟩ := hcalls.session (sturdy_start 5 0)
  obtain ⟨rb, hrelease, -⟩ := handleRequest_releases hr ha h1
  have hreal := (h 5 0 [t]).1 u hcalls _ (.failed h1 (by decide) hrelease rfl)
  exact absurd (show RealStatus AGAIN from hreal) (by decide +kernel)

end Session

end MWebServer
