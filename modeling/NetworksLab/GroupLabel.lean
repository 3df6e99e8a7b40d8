import Mathlib.Data.List.DropRight
import NetworksLab.GroupRelay
import NetworksLab.Slots

/-! A shout for any id. `shout` leaves room for an id of one digit: each further
digit costs the text a character at its end, or the label where the text is
too short. -/
namespace GroupChat
open CString Transition

/-- The label in front of the text. -/
def label (id : Nat) : Bytes := ascii "CLIENT" ++ decimal id ++ ascii ": "

/-- The string that arrives. -/
def delivered (id : Nat) (t : Bytes) : Bytes := (label id ++ t).rdrop ((decimal id).length - 1)

/-- In a shout of `t` under this id, or through with its loop. -/
structure HearAll.InShout (th : HearAll) (id : Nat) (t : Bytes) : Prop where
  sender : th.id = id
  heard : text th.buffer = t
  pc : (∃ i, th.pc = .shout i (zeros (t.length + 10))) ∨ th.pc = .unlock ∨ th.pc = .wild

theorem HearAll.InShout.zeroed {th : HearAll} {id i : Nat} {t msg : Bytes} (h : th.InShout id t)
    (pc : th.pc = .shout i msg) : msg = zeros (t.length + 10) := by
  rcases h.pc with ⟨_, loop⟩ | past | past
  · exact (HearAllPc.shout.inj (pc.symm.trans loop)).2
  · cases pc.symm.trans past
  · cases pc.symm.trans past

/-- The step by which thread `k` leaves its shout. -/
def Server.leaves (s : Server) (k : Nat) (e : Event) : Prop :=
  e = .thread k ∧ ∃ th, s.threads[k]? = some th ∧ th.pc = .unlock

/-- Runs in which thread `k` does not leave its shout, with what its own steps send. -/
inductive Server.Shouting (k : Nat) (s : Server) : List (Nat × Bytes) → Server → Prop
  | refl : Shouting k s [] s
  | other {sent u v e} (before : Shouting k s sent u) (foreign : e ≠ .thread k)
      (step : u.step e = some v) : Shouting k s sent v
  | own {sent u v} (before : Shouting k s sent u) (stays : ¬ u.leaves k (.thread k))
      (step : u.step (.thread k) = some v) :
      Shouting k s (sent ++ v.sends.drop u.sends.length) v

/-- The frame to each of the first `n` clients but `id`. -/
def Server.told (s : Server) (id n : Nat) (frame : Bytes) : List (Nat × Bytes) :=
  ((List.range n).filter (· ≠ id)).filterMap fun i => s.clients[i]?.map fun c => (c.sockfd, frame)

/-- A shout of this frame that begins here: every other client below `client_id` is sent
it in its turn, nothing else is sent, and at the end all that were there at the start
have been told. -/
structure Server.Shouts (s : Server) (k id : Nat) (frame : Bytes) : Prop where
  turn : ∀ sent u own i msg c, s.Shouting k sent u → u.exited = false →
    u.threads[k]? = some own → own.pc = .shout i msg → i < u.clientId → i ≠ id →
    u.clients[i]? = some c →
    ∃ v, u.step (.thread k) = some v ∧ v.sends = u.sends ++ [(c.sockfd, frame)]
  same : ∀ sent u, s.Shouting k sent u → ∀ p ∈ sent, p.2 = frame
  whole : ∀ sent u own, s.Shouting k sent u → u.threads[k]? = some own → own.pc = .unlock →
    ∃ n, s.clientId ≤ n ∧ n ≤ u.clientId ∧ sent = u.told id n frame

variable {s u v : Server} {k id n : Nat} {t frame : Bytes} {sent : List (Nat × Bytes)}

theorem Server.told_succ : s.told id (n + 1) frame = s.told id n frame ++
    if n = id then [] else (s.clients[n]?.map fun c => (c.sockfd, frame)).toList := by
  rw [told, List.range_succ, List.filter_append, List.filterMap_append]
  by_cases self : n = id
  · simp [told, self]
  · cases row : s.clients[n]? <;> simp [told, self, row]

/-- The table changes at `client_id` alone, which never goes back. -/
theorem Server.Move.table {e : Event} (move : Move s e u) :
    s.clientId ≤ u.clientId ∧ ∀ i < s.clientId, u.clients[i]? = s.clients[i]? := by
  cases move with
  | setSockfd | setId =>
      exact ⟨Nat.le_refl _, fun i below => List.getElem?_set_ne (Nat.ne_of_gt below)⟩
  | incr => exact ⟨Nat.le_succ _, fun _ _ => rfl⟩
  | _ => exact ⟨Nat.le_refl _, fun _ _ => rfl⟩

theorem Server.told_eq (within : n ≤ s.clientId)
    (table : ∀ i < s.clientId, u.clients[i]? = s.clients[i]?) :
    u.told id n frame = s.told id n frame := by
  apply List.filterMap_congr
  intro i mem
  have below : i < n := List.mem_range.mp (List.mem_of_mem_filter mem)
  rw [table i (Nat.lt_of_lt_of_le below within)]

/-- The others leave a thread in its shout alone. -/
theorem Server.Move.shouter {e : Event} {th : HearAll} (move : Move s e u) (foreign : e ≠ .thread k)
    (at' : s.threads[k]? = some th) (inside : th.InShout id t) : u.threads[k]? = some th := by
  have other {j : Nat} {th' : HearAll} (foreign : (Event.thread j) ≠ .thread k) :
      (s.threads.set j th')[k]? = some th := by
    rwa [List.getElem?_set_ne fun same => foreign (congrArg Event.thread same)]
  cases move with
  | exit | accept | overrun | setSockfd | setId | greet | incr => exact at'
  | create => exact (List.getElem?_append_left (List.getElem?_eq_some_iff.mp at').1).trans at'
  | @recv j th' got here pc =>
      have elsewhere : j ≠ k := by
        rintro rfl
        obtain rfl := Option.some.inj (here.symm.trans at')
        have := inside.pc
        simp [pc] at this
      exact (List.getElem?_set_ne elsewhere).trans at'
  | loadSockfd | loadId | lock | relay | skip | endShout | unlock | wildLoad | wildText | wildSlot =>
      exact other foreign

/-- Where a shout stands: who has been told so far. -/
structure Server.Standing (s u : Server) (k id : Nat) (t : Bytes) (sent : List (Nat × Bytes))
    (th : HearAll) : Prop where
  at' : u.threads[k]? = some th
  inside : th.InShout id t
  grown : s.clientId ≤ u.clientId
  same : ∀ p ∈ sent, p.2 = shoutFrame id t
  loop : ∀ i msg, th.pc = .shout i msg → i ≤ u.clientId ∧ sent = u.told id i (shoutFrame id t)
  through : th.pc = .unlock →
    ∃ n, s.clientId ≤ n ∧ n ≤ u.clientId ∧ sent = u.told id n (shoutFrame id t)

theorem Server.Standing.other {th : HearAll} {e : Event} (h : s.Standing u k id t sent th)
    (foreign : e ≠ .thread k) (move : Move u e v) : s.Standing v k id t sent th := by
  obtain ⟨grown, table⟩ := move.table
  refine ⟨move.shouter foreign h.at' h.inside, h.inside, h.grown.trans grown, h.same,
    fun i msg pc => ?_, fun pc => ?_⟩
  · obtain ⟨within, told⟩ := h.loop i msg pc
    exact ⟨within.trans grown, told.trans (told_eq within table).symm⟩
  · obtain ⟨n, start, within, told⟩ := h.through pc
    exact ⟨n, start, within.trans grown, told.trans (told_eq within table).symm⟩

theorem Server.Standing.own {th : HearAll} (h : s.Standing u k id t sent th)
    (stays : ¬ u.leaves k (.thread k)) (move : Move u (.thread k) v) :
    ∃ th', s.Standing v k id t (sent ++ v.sends.drop u.sends.length) th' := by
  have mine {th' : HearAll} (at' : u.threads[k]? = some th') : th' = th :=
    Option.some.inj (at'.symm.trans h.at')
  have quiet {w : Server} {th' : HearAll} (sends : w.sends = u.sends)
      (standing : s.Standing w k id t sent th') :
      ∃ th', s.Standing w k id t (sent ++ w.sends.drop u.sends.length) th' := by
    rw [sends, List.drop_length, List.append_nil]
    exact ⟨th', standing⟩
  have outside {pc : HearAllPc} (here : th.pc = pc) (never : ∀ i msg, pc ≠ .shout i msg)
      (unlock : pc ≠ .unlock) (wild : pc ≠ .wild) : False := by
    rcases h.inside.pc with ⟨i, loop⟩ | past | past
    · exact never _ _ (here.symm.trans loop)
    · exact unlock (here.symm.trans past)
    · exact wild (here.symm.trans past)
  cases move with
  | exit =>
      exact quiet rfl ⟨h.at', h.inside, h.grown, h.same, h.loop, h.through⟩
  | loadSockfd at' pc | loadId at' pc | lock at' pc | wildText at' pc =>
      obtain rfl := mine at'
      exact (outside pc nofun nofun nofun).elim
  | wildLoad at' pc =>
      obtain rfl := mine at'
      rcases pc with pc | pc <;> exact (outside pc nofun nofun nofun).elim
  | @relay _ th' i msg c at' pc more other slot =>
      obtain rfl := mine at'
      obtain ⟨_, told⟩ := h.loop i msg pc
      obtain rfl := h.inside.zeroed pc
      have frame : snprintf (zeros (t.length + 10)) (labelled th'.id (text th'.buffer)) =
          shoutFrame id t := by rw [h.inside.sender, h.inside.heard]; rfl
      rw [List.drop_left, frame]
      refine ⟨_, Slots.get_set at', ⟨h.inside.sender, h.inside.heard, .inl ⟨i + 1, ?_⟩⟩, h.grown,
        fun p mem => ?_, ?_, nofun⟩
      · rw [zeros_length]
      · rcases List.mem_append.mp mem with old | new
        · exact h.same p old
        · rw [List.mem_singleton.mp new]
      · rintro _ _ ⟨⟩
        refine ⟨more, ?_⟩
        have away : i ≠ id := h.inside.sender ▸ other
        change _ = u.told id (i + 1) _
        rw [told_succ, ← told, if_neg away, slot]
        rfl
  | @skip _ th' i msg at' pc more self =>
      obtain rfl := mine at'
      obtain ⟨_, told⟩ := h.loop i msg pc
      obtain rfl := h.inside.zeroed pc
      refine quiet rfl ⟨Slots.get_set at', ⟨h.inside.sender, h.inside.heard, .inl ⟨i + 1, rfl⟩⟩, h.grown,
        h.same, ?_, nofun⟩
      rintro _ _ ⟨⟩
      refine ⟨more, ?_⟩
      change _ = u.told id (i + 1) _
      rw [told_succ, ← told, if_pos (self.trans h.inside.sender), List.append_nil]
  | @endShout _ th' i msg at' pc last =>
      obtain rfl := mine at'
      obtain ⟨within, told⟩ := h.loop i msg pc
      refine quiet rfl ⟨Slots.get_set at', ⟨h.inside.sender, h.inside.heard, .inr (.inl rfl)⟩,
        h.grown, h.same, nofun, fun _ => ⟨i, h.grown.trans (Nat.le_of_not_lt last), within, told⟩⟩
  | unlock at' pc => exact absurd ⟨rfl, _, at', pc⟩ stays
  | @wildSlot _ th' i msg at' =>
      obtain rfl := mine at'
      exact quiet rfl ⟨Slots.get_set at', ⟨h.inside.sender, h.inside.heard, .inr (.inr rfl)⟩, h.grown, h.same,
        nofun, nofun⟩

theorem Server.Shouting.standing {th : HearAll} (start : s.Standing s k id t [] th)
    (shouting : s.Shouting k sent u) : ∃ th', s.Standing u k id t sent th' := by
  induction shouting with
  | refl => exact ⟨th, start⟩
  | other before foreign step ih =>
      obtain ⟨th', h⟩ := ih
      exact ⟨th', h.other foreign (step_move step)⟩
  | own before stays step ih =>
      obtain ⟨th', h⟩ := ih
      exact h.own stays (step_move step)

theorem Server.Standing.shouts {th : HearAll} (start : s.Standing s k id t [] th) :
    s.Shouts k id (shoutFrame id t) := by
  refine ⟨fun sent u own i msg c shouting alive at' pc more other slot => ?_,
    fun sent u shouting => ?_, fun sent u own shouting at' pc => ?_⟩
  · obtain ⟨th', h⟩ := shouting.standing start
    obtain rfl := Option.some.inj (at'.symm.trans h.at')
    obtain rfl := h.inside.zeroed pc
    have away : i ≠ own.id := h.inside.sender.symm ▸ other
    have turn : u.step (.thread k) = some { u.put k { own with
          pc := .shout (i + 1) (zeros (zeros (t.length + 10)).length) } with
        sends := u.sends ++ [(c.sockfd, snprintf (zeros (t.length + 10))
          (labelled own.id (text own.buffer)))] } := by
      simp [step, alive, threadStep, at', pc, shoutStep, more, away, slot]
    refine ⟨_, turn, ?_⟩
    rw [h.inside.sender, h.inside.heard]
    rfl
  · obtain ⟨_, h⟩ := shouting.standing start
    exact h.same
  · obtain ⟨th', h⟩ := shouting.standing start
    obtain rfl := Option.some.inj (at'.symm.trans h.at')
    exact h.through pc

end GroupChat
