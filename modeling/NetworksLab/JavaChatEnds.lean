import NetworksLab.JavaChatRounds

/-! Lines that all fit: the two ends print each other's lines in turn and leave
after the round in which the server types "Over". -/
namespace JavaChat
open JavaText Transition
open Program2 (writeUTF writeUTF_open)

variable {c s : Nat → JString} {t u : Session}

theorem sent_eq_typed {lines : Nat → JString} (fits : ∀ i, Fits (lines i)) (n : Nat) :
    sent lines n = typed lines n := by
  apply List.filter_eq_self.mpr
  intro l hl
  obtain ⟨i, _, rfl⟩ := List.mem_map.mp hl
  exact decide_eq_true (fits i)

/-- The lines printed by the client are the server's, those printed by the server
are what got through of the client's; the server is ahead by at most one. -/
theorem Phase.printed (h : Phase c s t) :
    t.client.printed = typed s t.client.printed.length ∧
    (∃ n, t.server.printed <+: sent c n) ∧
    t.client.printed.length ≤ t.server.printed.length ∧
    t.server.printed.length ≤ t.client.printed.length + 1 := by
  cases h with
  | @asked n _ _ _ _ _ _ _ count whole =>
      exact ⟨by simp, ⟨n, whole ▸ List.prefix_append ..⟩, by simp [count], by simp [count]⟩
  | @turn n _ _ _ _ _ _ count | @sending n _ _ _ _ count | @heard n _ _ _ _ count
  | @replying n _ _ _ count | @replied n _ _ _ _ count | @ending n _ _ _ _ _ count
  | @ended n _ _ _ _ _ count | @refused n _ _ _ _ _ count =>
      exact ⟨by simp, ⟨n, List.prefix_rfl⟩, by simp [count], by simp [count]⟩

/-- An end that has left its loop has been through the round of the first "Over". -/
theorem Phase.left (h : Phase c s t) :
    (t.client.Left → ∃ r, Open s r ∧ s r = overKey ∧ t.client.printed.length = r + 1) ∧
    (t.server.Left → ∃ r, Open s r ∧ s r = overKey ∧ t.server.printed.length = r + 1 ∧
      t.server.reads = r + 1) := by
  cases h with
  | turn opened count client server =>
      constructor
      · rintro (left | left) <;> rcases client with ⟨rfl, _⟩ | rfl <;> cases left
      · rintro (left | left) <;> rcases server with ⟨rfl, _⟩ | rfl <;> cases left
  | sending opened count server | asked opened count whole server | replied opened count server
  | refused opened long count server =>
      constructor
      · rintro (left | left) <;> cases left
      · rintro (left | left) <;> rcases server with ⟨rfl, _⟩ | rfl <;> cases left
  | heard | replying =>
      constructor <;> rintro (left | left) <;> cases left
  | ending opened last count server =>
      constructor
      · rintro (left | left) <;> cases left
      · intro _
        exact ⟨_, opened, last, count, rfl⟩
  | ended opened last count client server =>
      constructor
      · intro _
        exact ⟨_, opened, last, typed_length ..⟩
      · intro _
        exact ⟨_, opened, last, count, rfl⟩

/-- Where no step is possible the ends wait for each other or are both done. -/
theorem Phase.stuck (h : Phase c s t) (stuck : ∀ e, t.step c s e = none) :
    t.Deadlocked ∨ ∃ r, Open s r ∧ s r = overKey ∧ t.client.pc = .done ∧ t.server.pc = .done ∧
      t.client.printed.length = r + 1 ∧ t.server.printed.length = r + 1 ∧
      t.toServer = [] ∧ t.toClient = [] := by
  have client : t.clientStep c false = none := stuck (.client false)
  have server : t.serverStep s false = none := stuck (.server false)
  cases h with
  | turn _ _ at' => rcases at' with ⟨rfl, _⟩ | rfl <;> cases client
  | sending =>
      simp only [Session.clientStep] at client
      split at client <;> cases client
  | asked _ _ _ at' => rcases at' with ⟨rfl, _⟩ | rfl <;> cases server
  | heard => cases server
  | replying =>
      simp only [Session.serverStep] at server
      split at server <;> cases server
  | replied | ending => cases client
  | @ended n r cpc spc opened last count clientAt serverAt =>
      right
      have clientDone : cpc = .done := by
        rcases clientAt with rfl | rfl | at'
        · cases client
        · cases client
        · exact at'
      have serverDone : spc = .done := by
        rcases serverAt with rfl | rfl | at'
        · cases server
        · cases server
        · exact at'
      exact ⟨_, opened, last, clientDone, serverDone, typed_length .., count, rfl, rfl⟩
  | refused _ _ _ at' =>
      left
      rcases at' with ⟨rfl, _⟩ | rfl
      · cases server
      · exact ⟨rfl, rfl, rfl, rfl⟩

def FirstOver (s : Nat → JString) (k : Nat) : Prop := s k = overKey ∧ ∀ i < k, s i ≠ overKey

theorem FirstOver.le {k r : Nat} (h : FirstOver s k) (opened : Open s r) : r ≤ k := by
  by_contra past
  exact (opened k (Nat.lt_of_not_le past)).1 h.1

theorem FirstOver.eq {k r : Nat} (h : FirstOver s k) (opened : Open s r) (last : s r = overKey) :
    r = k := by
  apply Nat.le_antisymm (h.le opened)
  by_contra early
  exact h.2 r (Nat.lt_of_not_le early) last

theorem Phase.reads_le {k : Nat} (cFits : ∀ i, Fits (c i)) (sFits : ∀ i, Fits (s i))
    (first : FirstOver s k) (h : Phase c s t) :
    t.client.reads ≤ k + 1 ∧ t.server.reads ≤ k + 1 := by
  have reads (n : Nat) : (sent c n).length = n := by rw [sent_eq_typed cFits, typed_length]
  cases h with
  | turn opened count | sending opened count =>
      have below := first.le opened
      simp only [reads] at count ⊢
      omega
  | asked opened count whole =>
      have below := first.le opened
      have more := congrArg List.length whole
      simp only [reads, List.length_append, List.length_singleton] at more
      simp only
      omega
  | heard opened count | replying opened count | ending opened _ count | ended opened _ count =>
      have below := first.le opened
      simp only [reads] at count ⊢
      omega
  | replied opened count =>
      have below := first.le opened
      simp only [reads] at count ⊢
      omega
  | refused opened long => exact absurd (sFits _) long

theorem End.steps_le {e : End} {k : Nat} (h : e.reads ≤ k + 1) :
    e.clientSteps ≤ 4 * k + 10 ∧ e.serverSteps ≤ 4 * k + 10 := by
  unfold clientSteps serverSteps
  constructor <;> cases e.pc <;> simp only <;> omega

theorem Phase.printed_typed (cFits : ∀ i, Fits (c i)) (h : Phase c s t) :
    t.server.printed = typed c t.server.printed.length ∧
      t.client.printed = typed s t.client.printed.length := by
  obtain ⟨client, ⟨n, server⟩, _⟩ := h.printed
  rw [sent_eq_typed cFits] at server
  exact ⟨Firsts.eq_map_range server, client⟩

theorem Phase.not_deadlocked (sFits : ∀ i, Fits (s i)) (h : Phase c s t) : ¬ t.Deadlocked := by
  intro dead
  obtain ⟨r, _, _, long, _⟩ := h.deadlocked dead
  exact long (sFits r)

theorem run_bound {k : Nat} {es : List Event} (cFits : ∀ i, Fits (c i)) (sFits : ∀ i, Fits (s i))
    (first : FirstOver s k) (h : run (Session.step c s) .start es = some t) :
    es.length ≤ 8 * k + 12 := by
  have phase : Phase c s t := Phase.reach (reach_of_run h)
  have count := run_length_le Phase.start (fun _ _ _ p step => ⟨p.step step, p.steps step⟩) h
  obtain ⟨client, server⟩ := phase.reads_le cFits sFits first
  have clientSteps := (End.steps_le client).1
  have serverSteps := (End.steps_le server).2
  have base : Session.start.steps = 8 := rfl
  unfold Session.steps at count base
  omega

theorem Phase.left_first {k : Nat} (first : FirstOver s k) (h : Phase c s t) :
    (t.client.Left → t.client.printed.length = k + 1) ∧
      (t.server.Left → t.server.printed.length = k + 1 ∧ t.server.reads = k + 1) := by
  constructor
  · intro left
    obtain ⟨r, opened, last, length⟩ := h.left.1 left
    rw [length, first.eq opened last]
  · intro left
    obtain ⟨r, opened, last, length, reads⟩ := h.left.2 left
    rw [length, reads, first.eq opened last]
    exact ⟨rfl, rfl⟩

theorem Phase.stuck_first {k : Nat} (cFits : ∀ i, Fits (c i)) (sFits : ∀ i, Fits (s i))
    (first : FirstOver s k) (h : Phase c s t) (stuck : ∀ e, t.step c s e = none) :
    t.client.pc = .done ∧ t.server.pc = .done ∧ t.server.printed = typed c (k + 1) ∧
      t.client.printed = typed s (k + 1) ∧ t.toServer = [] ∧ t.toClient = [] := by
  obtain ⟨r, opened, last, client, server, clientLength, serverLength, queues⟩ :=
    (h.stuck stuck).resolve_left (h.not_deadlocked sFits)
  obtain rfl := first.eq opened last
  obtain ⟨serverPrinted, clientPrinted⟩ := h.printed_typed cFits
  exact ⟨client, server, serverLength ▸ serverPrinted, clientLength ▸ clientPrinted, queues⟩

/-- Without an "Over" of the server nobody leaves and something can happen. -/
theorem Phase.goes_on (sFits : ∀ i, Fits (s i)) (never : ∀ k, s k ≠ overKey) (h : Phase c s t) :
    ¬ t.client.Left ∧ ¬ t.server.Left ∧ ∃ e u, t.step c s e = some u := by
  refine ⟨?_, ?_, ?_⟩
  · intro left
    obtain ⟨r, _, last, _⟩ := h.left.1 left
    exact never r last
  · intro left
    obtain ⟨r, _, last, _⟩ := h.left.2 left
    exact never r last
  · by_contra none
    have stuck : ∀ e, t.step c s e = Option.none := fun e =>
      Option.eq_none_iff_forall_ne_some.mpr fun u step => none ⟨e, u, step⟩
    obtain ⟨r, _, last, _⟩ := (h.stuck stuck).resolve_left (h.not_deadlocked sFits)
    exact never r last

/-- For lines that all fit, the two ends leave together after the round of the
server's first "Over", each having printed what the other has typed; without an
"Over" the chat goes on, each end at most one line behind. -/
theorem ends_agree (cFits : ∀ i, Fits (c i)) (sFits : ∀ i, Fits (s i)) :
    (∀ t, Reach (Session.step c s) anyStep .start t →
      t.server.printed = typed c t.server.printed.length ∧
      t.client.printed = typed s t.client.printed.length ∧
      t.client.printed.length ≤ t.server.printed.length ∧
      t.server.printed.length ≤ t.client.printed.length + 1) ∧
    (∀ k, FirstOver s k →
      (∀ es t, run (Session.step c s) .start es = some t → es.length ≤ 8 * k + 12) ∧
      ∀ t, Reach (Session.step c s) anyStep .start t →
        (t.client.Left → t.client.printed.length = k + 1) ∧
        (t.server.Left → t.server.printed.length = k + 1 ∧ t.server.reads = k + 1) ∧
        ((∀ e, t.step c s e = none) → t.client.pc = .done ∧ t.server.pc = .done ∧
          t.server.printed = typed c (k + 1) ∧ t.client.printed = typed s (k + 1) ∧
          t.toServer = [] ∧ t.toClient = [])) ∧
    ((∀ k, s k ≠ overKey) → ∀ t, Reach (Session.step c s) anyStep .start t →
      ¬ t.client.Left ∧ ¬ t.server.Left ∧ ∃ e u, t.step c s e = some u) := by
  refine ⟨?_, ?_, ?_⟩
  · intro t reached
    have phase := Phase.reach reached
    obtain ⟨server, client⟩ := phase.printed_typed cFits
    exact ⟨server, client, phase.printed.2.2⟩
  · intro k first
    constructor
    · intro es t h
      exact run_bound cFits sFits first h
    · intro t reached
      have phase := Phase.reach reached
      obtain ⟨client, server⟩ := phase.left_first first
      exact ⟨client, server, phase.stuck_first cFits sFits first⟩
  · intro never t reached
    exact (Phase.reach reached).goes_on sFits never

/-- A server that says "yes" once and then "Over". -/
def yesOver : Nat → JString
  | 0 => literal "yes"
  | _ => overKey

def twoRounds : List Event :=
  let round := [.client false, .client false, .client false, .server false, .server false,
    .server false, .server false, .client false]
  round ++ round ++ [.client false, .client false, .server false, .server false]

theorem ends_agree_yesOver : ∃ t,
    run (Session.step (fun _ => literal "hi") yesOver) .start twoRounds = some t ∧
    t.server.printed = [literal "hi", literal "hi"] ∧ t.client.printed = [literal "yes", overKey] := by
  obtain ⟨t, reached⟩ : ∃ t,
      run (Session.step (fun _ => literal "hi") yesOver) .start twoRounds = some t := ⟨_, rfl⟩
  have stuck : ∀ e, t.step (fun _ => literal "hi") yesOver e = none := by
    obtain rfl := Option.some.inj reached
    rintro (_ | _) <;> rfl
  have yesFits : ∀ i, Fits (yesOver i)
    | 0 => by decide
    | _ + 1 => over_fits
  have first : FirstOver yesOver 1 := by
    refine ⟨rfl, ?_⟩
    intro i hi
    obtain rfl : i = 0 := by omega
    decide
  obtain ⟨_, rounds, _⟩ := ends_agree (c := fun _ => literal "hi") (fun _ => by decide) yesFits
  obtain ⟨_, _, server, client, _⟩ := ((rounds 1 first).2 t (reach_of_run reached)).2.2 stuck
  exact ⟨t, reached, server, client⟩

end JavaChat
