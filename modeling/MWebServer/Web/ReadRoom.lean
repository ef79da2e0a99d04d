import MWebServer.Web.Interference
import MWebServer.Web.RealStatus

/-!
# The read buffer between two turns

`http_request` gives every message back as a whole, complete or not, and what is given back is
overwritten with zeros.  So the read buffer is empty at every read, and what it takes is decided
by one message at a time: a read that does not fit makes the block larger, and nothing ever makes
it smaller.

* `length_leftBehind` — the block behind a read into an empty buffer.
* `held_turn` — what a turn leaves of the read buffer.
* `Blank`, `blank_turn` — between two turns the read buffer is empty.
* `readRoom_bounded` — over whole runs, the block has at most twice the size of a message.
-/

namespace MWebServer

namespace Session

variable {env : Env} {s s' u : WebSession} {t : Turn} {m : List Byte} {fresh : Nat → Byte}

/-! ## One message -/

/-- What is read into an empty buffer. -/
theorem readBuffer_some {block : List Byte} {incoming : Option (List Byte)} {k : Int} (ha : s.Alive)
    (h : s.conn.ringBufferRead = held [] block) (hread : s.readBuffer fresh incoming = .ok (k, u))
    (hk : k > 0) :
    ∃ m, m ≠ [] ∧ incoming = some m ∧ u = s.setRead (held m (s.leftBehind fresh m)) := by
  obtain ⟨-, hn⟩ := readBuffer_frame ha hread
  cases incoming with
  | none => exact absurd hk (by rw [hn]; decide)
  | some m =>
    have hm : m ≠ [] := by
      rintro rfl
      exact absurd hk (by rw [hn]; decide)
    exact ⟨m, hm, rfl, congrArg Prod.snd (Run.ok_unique hread (readBuffer_held ha h hm))⟩

/-- A read that delivers nothing changes nothing. -/
theorem readBuffer_silent {incoming : Option (List Byte)} {k : Int} (ha : s.Alive)
    (hread : s.readBuffer fresh incoming = .ok (k, u)) (hk : ¬ k > 0) : u = s := by
  obtain ⟨-, hn⟩ := readBuffer_frame ha hread
  unfold readBuffer at hread
  simp only [ha.touchConn] at hread
  cases incoming with
  | none => exact (congrArg Prod.snd (Except.ok.inj hread)).symm
  | some m =>
    have hm : m.length = 0 := by
      simp only [Option.elim] at hn
      omega
    simp only [hm, if_true] at hread
    exact (congrArg Prod.snd (Except.ok.inj hread)).symm

/-- A read into an empty buffer succeeds. -/
theorem readBuffer_total {block : List Byte} (ha : s.Alive)
    (h : s.conn.ringBufferRead = held [] block) (incoming : Option (List Byte)) :
    ∃ k u, s.readBuffer fresh incoming = .ok (k, u) := by
  cases incoming with
  | none => exact ⟨-1, s.touchConn, rfl⟩
  | some m =>
    by_cases hm : m = []
    · subst hm
      exact ⟨0, s.touchConn, rfl⟩
    · exact ⟨_, _, readBuffer_held ha h hm⟩

/-- **The block behind a read** is the old one, or one of less than twice the size of what is read,
where the old one is too small. -/
theorem length_leftBehind (s : WebSession) (fresh : Nat → Byte) (m : List Byte) :
    m.length + (s.leftBehind fresh m).length = s.readMem.length ∨
      (s.readMem.length < m.length ∧
        m.length + (s.leftBehind fresh m).length = s.readMem.length + m.length) := by
  unfold leftBehind
  split_ifs with hfits
  · rw [List.length_drop]
    omega
  · rw [List.length_drop, length_muMalloc]
    omega

/-- Giving bytes back keeps the block. -/
theorem releaseRead_cap {len : Int} (h : s.releaseRead len = .ok s') :
    s'.conn.ringBufferRead.cap = s.conn.ringBufferRead.cap := by
  unfold releaseRead at h
  obtain ⟨rb, hrelease, h⟩ := Run.bind_eq_ok.1 h
  unfold RingBuffer.releaseBytes at hrelease
  obtain ⟨msg, -, hrelease⟩ := Run.bind_eq_ok.1 hrelease
  rw [← Except.ok.inj h]
  show rb.cap = _
  simp only at hrelease
  split_ifs at hrelease
  · rw [← Except.ok.inj hrelease]
    rfl
  · rw [← Except.ok.inj hrelease]
    rfl

/-- **`http_request` keeps the block.** -/
theorem httpRequest_cap (hw : s.conn.ringBufferWrite.Inv) (ha : s.Alive)
    (hok : s.httpRequest env = .ok s') :
    s'.conn.ringBufferRead.cap = s.conn.ringBufferRead.cap := by
  obtain ⟨status, s₁, s₂, s₃, h1, h2, h3, rfl⟩ := httpRequest_eq_ok.1 hok
  have hrel := handleRequest_released hw ha h1 h2
  have hresp := hrel.responded h3
  obtain ⟨hidle, -⟩ := finishRequest_spec hresp.write (hresp.alive hrel.alive)
  obtain ⟨mem, -, hconn⟩ := (handleRequest_read ha h1).conn
  rw [hidle.read, hresp.read, releaseRead_cap h2, hconn]

/-! ## One turn -/

/-- The size `n'` of the block is the old one, or less than twice that of what was read. -/
def RoomFor (n n' : Nat) (incoming : Option (List Byte)) : Prop :=
  n' = n ∨ ∃ m, incoming = some m ∧ n < m.length ∧ n' = n + m.length

/-- **The readable side leaves an empty buffer**, and a block in which the message has room. -/
theorem eventReadableCallback_held {block : List Byte} {incoming : Option (List Byte)}
    (hw : s.conn.ringBufferWrite.Inv) (ha : s.Alive) (hn : s.conn.ringBufferRead = held [] block)
    (hok : s.eventReadableCallback env (onMessage env) incoming = .ok s') :
    ∃ block', s'.conn.ringBufferRead = held [] block' ∧
      RoomFor block.length block'.length incoming := by
  obtain ⟨k, rb, hread, ha₁, ⟨hdata, hreq⟩ | ⟨hnone, rfl⟩⟩ := eventReadableCallback_cases ha hok
  · have hw₁ : (s.setRead rb).conn.ringBufferWrite.Inv := hw
    obtain ⟨m, -, rfl, hset⟩ := readBuffer_some ha hn hread hdata
    have hheld : (s.setRead rb).conn.ringBufferRead = held m (s.leftBehind env.fresh m) := by
      rw [hset]
      rfl
    obtain ⟨⟨block', hn'⟩, -⟩ := httpRequest_empties hw₁ ha₁ hheld hreq
    have hmem : s.readMem.length = block.length := by
      unfold readMem
      rw [hn]
      rfl
    have hcap := httpRequest_cap hw₁ ha₁ hreq
    simp only [hn', hheld, held, List.length_nil, Nat.zero_add, Nat.cast_inj] at hcap
    refine ⟨block', hn', ?_⟩
    rcases length_leftBehind s env.fresh m with hsame | ⟨hlong, hgrown⟩
    · exact Or.inl (by omega)
    · exact Or.inr ⟨m, rfl, by omega, by omega⟩
  · obtain ⟨hidle, -⟩ := connectionDisconnect_spec (s := s.setRead rb) hw ha₁
    refine ⟨block, ?_, Or.inl rfl⟩
    rw [hidle.read, readBuffer_silent ha hread hnone]
    exact hn

/-- **A turn leaves an empty read buffer**, unless it frees the connection. -/
theorem held_turn {block : List Byte} (h : s.Steady) (hev : s.evLive = true)
    (hn : s.conn.ringBufferRead = held [] block) (hok : s.turn t = .ok s') :
    (s'.Steady ∧ ∃ block', s'.conn.ringBufferRead = held [] block' ∧
      RoomFor block.length block'.length t.ready.incoming) ∨ s.Freed s' := by
  have hactive := h.activate t.ready
  refine turn_keeps (X := fun s => ∃ block', s.conn.ringBufferRead = held [] block' ∧
      RoomFor block.length block'.length t.ready.incoming) h hev (t := t) ⟨block, hn, Or.inl rfl⟩
    (fun _ hX => hX) (fun u _ _ hu _ _ _ => ?_) ?_ ⟨block, hn, Or.inl rfl⟩ hok
  · exact eventReadableCallback_held hactive.write (hactive.alive hev) hn hu
  · rintro u v - - ⟨⟨rb, hconn⟩, -⟩ hX
    rw [hconn]
    exact hX

/-- A connection between two turns whose read buffer is empty, or whose event is gone. -/
def Blank (s : WebSession) : Prop :=
  s.evLive = true → s.Steady ∧ ∃ block, s.conn.ringBufferRead = held [] block

theorem blank_start (connfd now : Int) : (start connfd now).Blank :=
  fun _ => ⟨steady_start connfd now, [], rfl⟩

theorem Blank.sturdy (h : s.Blank) : s.Sturdy := by
  intro hev
  obtain ⟨hsteady, block, hn⟩ := h hev
  refine ⟨hsteady, ?_⟩
  rw [hn]
  exact held_inv [] block

/-- **Every turn leaves the read buffer empty.** -/
theorem blank_turn (h : s.Blank) (hok : s.turn t = .ok s') : s'.Blank := by
  by_cases hev : s.evLive = true
  · obtain ⟨hsteady, block, hn⟩ := h hev
    rcases held_turn hsteady hev hn hok with ⟨hsteady', block', hn', -⟩ | hfreed
    · exact fun _ => ⟨hsteady', block', hn'⟩
    · exact fun hlive => Bool.noConfusion (hfreed.gone.2.symm.trans hlive)
  · obtain rfl := turn_eq_self hev hok
    exact h

/-! ## A run -/

/-- The size of the longest message that can be read. -/
def longest : List Turn → Nat
  | [] => 0
  | t :: turns => max (t.ready.incoming.elim 0 List.length) (longest turns)

theorem le_longest {turns : List Turn} (ht : t ∈ turns) (hm : t.ready.incoming = some m) :
    m.length ≤ longest turns := by
  induction turns with
  | nil => cases ht
  | cons t' turns ih =>
    rcases List.mem_cons.1 ht with rfl | ht
    · refine le_trans (le_of_eq ?_) (le_max_left _ _)
      rw [hm]
      rfl
    · exact (ih ht).trans (le_max_right _ _)

/-- The read buffer is empty, in a block of at most twice the size `room`. -/
def ReadRoom (room : Nat) (s : WebSession) : Prop :=
  ∃ block, s.conn.ringBufferRead = held [] block ∧ block.length ≤ 2 * room

/-- **One turn**, in which a message of at most the size `room` can be read. -/
theorem readRoom_turn {room : Nat} (h : (s.Steady ∧ s.ReadRoom room) ∨ s.Gone)
    (hsize : ∀ m, t.ready.incoming = some m → m.length ≤ room) (hok : s.turn t = .ok s') :
    (s'.Steady ∧ s'.ReadRoom room) ∨ s'.Gone := by
  rcases h with ⟨hsteady, n, hn, hle⟩ | hgone
  · by_cases hev : s.evLive = true
    · rcases held_turn hsteady hev hn hok with ⟨hsteady', n', hn', hroom⟩ | hfreed
      · refine Or.inl ⟨hsteady', n', hn', ?_⟩
        rcases hroom with hsame | ⟨m, hm, hlong, hgrown⟩
        · omega
        · have hfits := hsize m hm
          omega
      · exact Or.inr hfreed.gone
    · obtain rfl := turn_eq_self hev hok
      exact Or.inl ⟨hsteady, n, hn, hle⟩
  · rw [hgone.turn hok]
    exact Or.inr hgone

/-- **The memory of the read buffer is bounded by the longest message**, however many are read, and
nothing of a message outlives its turn. -/
theorem readRoom_bounded (connfd now : Int) (turns : List Turn) :
    Run.Always turn (fun s => s.connLive = true → s.conn.ringBufferRead.content = [] ∧
      s.conn.ringBufferRead.cap ≤ 2 * longest turns) (start connfd now) turns := by
  refine Run.always_of_meets (I := fun s => (s.Steady ∧ s.ReadRoom (longest turns)) ∨ s.Gone)
    (C := fun _ t => t ∈ turns) ?_ (fun s t s' h ht hok => readRoom_turn h (fun _ => le_longest ht) hok)
    (Or.inl ⟨steady_start connfd now, [], rfl, Nat.zero_le _⟩) (Run.meets_of_forall (fun _ ht _ => ht) _)
  rintro s (⟨-, n, hn, hle⟩ | hgone) hlive
  · rw [hn]
    exact ⟨by simp [RingBuffer.content, held], by simp only [held, List.length_nil]; omega⟩
  · exact Bool.noConfusion (hgone.1.symm.trans hlive)

end Session

end MWebServer
