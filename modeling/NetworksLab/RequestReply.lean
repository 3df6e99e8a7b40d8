import Mathlib.Data.List.Perm.Subperm
import Mathlib.Logic.Function.Basic
import Mathlib.Order.Nat
import NetworksLab.Network
import NetworksLab.Transition

/-! Clients that send one request each and print the first reply to come, and a
server that makes its replies from a clock, on a network that may lose, repeat and
reorder packets. -/
namespace RequestReply
open Transition

/-- `β` are the packets and `π` what a client prints of one. The server ends after
`limit` replies, or never. -/
structure Program (β π : Type*) where
  request : β
  reply : ℕ → β
  print : β → π
  limit : Option ℕ

inductive ClientPc (β : Type*)
  | send
  | receive
  | print (data : β)
  | done

/-- `asked` is when its request was sent, `printed` what it has printed and when. -/
structure Client (β π : Type*) where
  pc : ClientPc β
  asked : Option ℕ
  printed : Option (ℕ × π)

inductive ServerPc (α β : Type*)
  | receive
  | make (peer : α)
  | send (peer : α) (data : β)
  | done

/-- `answered` are the clients the server has replied to, in order. -/
structure System (α β π : Type*) where
  now : ℕ
  clients : α → Client β π
  pc : ServerPc α β
  answered : List α
  requests : List (α × β)
  replies : List (α × β)

variable {α β π : Type*}

def System.start : System α β π := ⟨0, fun _ => ⟨.send, none, none⟩, .receive, [], [], []⟩

/-- The index is that of the packet in transit that arrives or gets lost. -/
inductive Event (α : Type*)
  | tick
  | client (a : α)
  | clientReceive (i : ℕ) (again : Bool)
  | server
  | serverReceive (i : ℕ) (again : Bool)
  | loseRequest (i : ℕ)
  | loseReply (i : ℕ)

variable [DecidableEq α] (p : Program β π)

def System.put (s : System α β π) (a : α) (c : Client β π) : System α β π :=
  { s with clients := Function.update s.clients a c }

/-- The statements of a client but for its `receive`. -/
def System.clientStep (s : System α β π) (a : α) : Option (System α β π) :=
  let c := s.clients a
  match c.pc with
  | .send => some { s.put a { c with pc := .receive, asked := some s.now } with
      requests := s.requests ++ [(a, p.request)] }
  | .print data => some (s.put a { c with pc := .done, printed := some (s.now, p.print data) })
  | .receive | .done => none

def System.clientReceive (s : System α β π) (i : ℕ) (again : Bool) : Option (System α β π) :=
  match Network.arrive s.replies i again with
  | none => none
  | some ((a, data), rest) =>
      match (s.clients a).pc with
      | .receive => some { s.put a { s.clients a with pc := .print data } with replies := rest }
      | .send | .print _ | .done => none

/-- The statements of the server but for its `receive`. -/
def System.serverStep (s : System α β π) : Option (System α β π) :=
  match s.pc with
  | .make a => some { s with pc := .send a (p.reply s.now) }
  | .send a data => some { s with
      pc := if p.limit = some (s.answered.length + 1) then .done else .receive
      answered := s.answered ++ [a]
      replies := s.replies ++ [(a, data)] }
  | .receive | .done => none

def System.serverReceive (s : System α β π) (i : ℕ) (again : Bool) : Option (System α β π) :=
  match Network.arrive s.requests i again with
  | none => none
  | some ((a, _), rest) =>
      match s.pc with
      | .receive => some { s with pc := .make a, requests := rest }
      | .make _ | .send _ _ | .done => none

def System.step (s : System α β π) : Event α → Option (System α β π)
  | .tick => some { s with now := s.now + 1 }
  | .client a => s.clientStep p a
  | .clientReceive i again => s.clientReceive i again
  | .server => s.serverStep p
  | .serverReceive i again => s.serverReceive i again
  | .loseRequest i => (s.requests[i]?).map fun _ => { s with requests := s.requests.eraseIdx i }
  | .loseReply i => (s.replies[i]?).map fun _ => { s with replies := s.replies.eraseIdx i }

/-- Everything a step can do. What is in transit only becomes less, but for what is sent. -/
inductive System.Move (s : System α β π) : Event α → System α β π → Prop
  | tick : Move s .tick { s with now := s.now + 1 }
  | ask {a} (pc : (s.clients a).pc = .send) : Move s (.client a)
      { s.put a { s.clients a with pc := .receive, asked := some s.now } with
        requests := s.requests ++ [(a, p.request)] }
  | print {a data} (pc : (s.clients a).pc = .print data) : Move s (.client a)
      (s.put a { s.clients a with pc := .done, printed := some (s.now, p.print data) })
  | hear {i again a data rest} (pc : (s.clients a).pc = .receive) (here : (a, data) ∈ s.replies)
      (fewer : rest ⊆ s.replies) : Move s (.clientReceive i again)
      { s.put a { s.clients a with pc := .print data } with replies := rest }
  | make {a} (pc : s.pc = .make a) : Move s .server { s with pc := .send a (p.reply s.now) }
  | answer {a data} (pc : s.pc = .send a data) : Move s .server { s with
      pc := if p.limit = some (s.answered.length + 1) then .done else .receive
      answered := s.answered ++ [a]
      replies := s.replies ++ [(a, data)] }
  | serve {i again a data rest} (pc : s.pc = .receive) (here : (a, data) ∈ s.requests)
      (fewer : rest ⊆ s.requests) : Move s (.serverReceive i again)
      { s with pc := .make a, requests := rest }
  | loseRequest {i rest} (fewer : rest ⊆ s.requests) : Move s (.loseRequest i) { s with requests := rest }
  | loseReply {i rest} (fewer : rest ⊆ s.replies) : Move s (.loseReply i) { s with replies := rest }

variable {p} {s t : System α β π}

theorem System.move {e : Event α} (step : s.step p e = some t) : System.Move p s e t := by
  cases e with
  | tick => exact Option.some.inj step ▸ .tick
  | client a =>
      simp only [System.step, clientStep] at step
      split at step <;> rename_i pc
      · exact Option.some.inj step ▸ .ask pc
      · exact Option.some.inj step ▸ .print pc
      · cases step
      · cases step
  | clientReceive i again =>
      simp only [System.step, clientReceive] at step
      split at step
      · cases step
      · next arrived =>
          split at step <;> rename_i pc
          · exact Option.some.inj step ▸
              .hear pc (Network.mem_of_arrive arrived) (Network.subset_of_arrive arrived)
          · cases step
          · cases step
          · cases step
  | server =>
      simp only [System.step, serverStep] at step
      split at step <;> rename_i pc
      · exact Option.some.inj step ▸ .make pc
      · exact Option.some.inj step ▸ .answer pc
      · cases step
      · cases step
  | serverReceive i again =>
      simp only [System.step, serverReceive] at step
      split at step
      · cases step
      · next arrived =>
          split at step <;> rename_i pc
          · exact Option.some.inj step ▸
              .serve pc (Network.mem_of_arrive arrived) (Network.subset_of_arrive arrived)
          · cases step
          · cases step
          · cases step
  | loseRequest i =>
      obtain ⟨_, _, rfl⟩ := Option.map_eq_some_iff.mp step
      exact .loseRequest List.eraseIdx_subset
  | loseReply i =>
      obtain ⟨_, _, rfl⟩ := Option.map_eq_some_iff.mp step
      exact .loseReply List.eraseIdx_subset

/-- The client asked by the time `now`. -/
def Client.Asked (c : Client β π) (now : ℕ) : Prop := ∃ asked ≤ now, c.asked = some asked

/-- The packet was made after the client asked and by the time `now`. -/
def Client.Fresh (p : Program β π) (c : Client β π) (now : ℕ) (data : β) : Prop :=
  ∃ asked made, c.asked = some asked ∧ asked ≤ made ∧ made ≤ now ∧ data = p.reply made

/-- A client at the time `now`; `answered` says that the server has replied to it. -/
structure Client.Sound (p : Program β π) (now : ℕ) (answered : Prop) (c : Client β π) : Prop where
  silent : c.pc = .send → c.asked = none
  holding : ∀ data, c.pc = .print data → answered ∧ c.Fresh p now data
  printed : ∀ time text, c.printed = some (time, text) →
    answered ∧ time ≤ now ∧ ∃ data, c.Fresh p time data ∧ text = p.print data

structure System.Sound (p : Program β π) (s : System α β π) : Prop where
  clients : ∀ a, (s.clients a).Sound p s.now (a ∈ s.answered)
  requests : ∀ q ∈ s.requests, (s.clients q.1).Asked s.now
  replies : ∀ q ∈ s.replies, q.1 ∈ s.answered ∧ (s.clients q.1).Fresh p s.now q.2
  make : ∀ a, s.pc = .make a → (s.clients a).Asked s.now
  send : ∀ a data, s.pc = .send a data → (s.clients a).Fresh p s.now data

section Later

variable {c d : Client β π} {now next : ℕ} {answered answeredLater : Prop} {data : β}

theorem Client.Asked.later (h : c.Asked now) (same : ∀ asked, c.asked = some asked → d.asked = some asked)
    (le : now ≤ next) : d.Asked next := by
  obtain ⟨asked, before, time⟩ := h
  exact ⟨asked, before.trans le, same asked time⟩

theorem Client.Fresh.later (h : c.Fresh p now data)
    (same : ∀ asked, c.asked = some asked → d.asked = some asked) (le : now ≤ next) :
    d.Fresh p next data := by
  obtain ⟨asked, made, time, after, before, reply⟩ := h
  exact ⟨asked, made, same asked time, after, before.trans le, reply⟩

theorem Client.Sound.later (h : c.Sound p now answered) (le : now ≤ next)
    (grows : answered → answeredLater) : c.Sound p next answeredLater where
  silent := h.silent
  holding data pc := (h.holding data pc).imp grows fun fresh => fresh.later (fun _ => id) le
  printed time text out := by
    obtain ⟨done, before, made⟩ := h.printed time text out
    exact ⟨grows done, before.trans le, made⟩

end Later

omit [DecidableEq α] in
/-- A step that leaves the clients alone. -/
theorem System.Sound.idle (h : s.Sound p) (clients : t.clients = s.clients) (now : s.now ≤ t.now)
    (answered : s.answered ⊆ t.answered) (requests : t.requests ⊆ s.requests)
    (replies : ∀ q ∈ t.replies, q ∈ s.replies ∨ q.1 ∈ t.answered ∧ (t.clients q.1).Fresh p t.now q.2)
    (make : ∀ a, t.pc = .make a → (s.clients a).Asked s.now)
    (send : ∀ a data, t.pc = .send a data → (s.clients a).Fresh p s.now data) : t.Sound p where
  clients a := by
    rw [clients]
    exact (h.clients a).later now fun mem => answered mem
  requests q mem := by
    rw [clients]
    exact (h.requests q (requests mem)).later (fun _ => id) now
  replies q mem := by
    rcases replies q mem with old | new
    · rw [clients]
      exact (h.replies q old).imp (fun mem => answered mem) fun fresh => fresh.later (fun _ => id) now
    · exact new
  make a pc := by
    rw [clients]
    exact (make a pc).later (fun _ => id) now
  send a data pc := by
    rw [clients]
    exact (send a data pc).later (fun _ => id) now

/-- A step of one client. -/
theorem System.Sound.put (h : s.Sound p) {a : α} {c : Client β π}
    (same : ∀ asked, (s.clients a).asked = some asked → c.asked = some asked)
    (client : c.Sound p s.now (a ∈ s.answered)) {requests : List (α × β)} {replies : List (α × β)}
    (asks : ∀ q ∈ requests, q ∈ s.requests ∨ q.1 = a ∧ c.Asked s.now) (fewer : replies ⊆ s.replies) :
    System.Sound p { s.put a c with requests := requests, replies := replies } := by
  have keeps : ∀ b asked, (s.clients b).asked = some asked →
      (Function.update s.clients a c b).asked = some asked := by
    intro b
    by_cases own : b = a
    · subst own
      rw [Function.update_self]
      exact same
    · rw [Function.update_of_ne own]
      exact fun _ => id
  refine ⟨?_, fun q mem => ?_, fun q mem => ?_, fun b pc => ?_, fun b data pc => ?_⟩
  · exact (Function.forall_update_iff s.clients fun b d => d.Sound p s.now (b ∈ s.answered)).mpr
      ⟨client, fun b _ => h.clients b⟩
  · rcases asks q mem with old | ⟨own, asked⟩
    · exact (h.requests q old).later (keeps q.1) le_rfl
    · subst own
      change (Function.update s.clients q.1 c q.1).Asked s.now
      rwa [Function.update_self]
  · exact (h.replies q (fewer mem)).imp_right fun fresh => fresh.later (keeps q.1) le_rfl
  · exact (h.make b pc).later (keeps b) le_rfl
  · exact (h.send b data pc).later (keeps b) le_rfl

theorem System.Sound.move (h : s.Sound p) {e : Event α} (move : System.Move p s e t) : t.Sound p := by
  cases move with
  | tick => exact h.idle rfl (Nat.le_succ _) (List.Subset.refl _) (List.Subset.refl _) (fun _ => .inl) h.make h.send
  | @ask a pc =>
      have silent := (h.clients a).silent pc
      have early := (h.clients a).printed
      refine h.put (c := { s.clients a with pc := .receive, asked := some s.now })
        (fun asked time => ?_) ⟨nofun, nofun, fun time text out => ?_⟩ (fun q mem => ?_) (List.Subset.refl _)
      · rw [silent] at time
        cases time
      · obtain ⟨_, _, _, ⟨_, _, time, _⟩, _⟩ := early time text out
        rw [silent] at time
        cases time
      · rcases List.mem_append.mp mem with old | new
        · exact .inl old
        · obtain rfl := List.mem_singleton.mp new
          exact .inr ⟨rfl, s.now, le_rfl, rfl⟩
  | @print a data pc =>
      obtain ⟨answered, fresh⟩ := (h.clients a).holding data pc
      refine h.put (c := { s.clients a with pc := .done, printed := some (s.now, p.print data) })
        (fun _ => id) ⟨nofun, nofun, fun time text out => ?_⟩ (fun _ => .inl) (List.Subset.refl _)
      obtain ⟨rfl, rfl⟩ := Prod.mk.inj (Option.some.inj out)
      exact ⟨answered, le_rfl, data, fresh, rfl⟩
  | @hear i again a data rest pc here fewer =>
      obtain ⟨answered, fresh⟩ := h.replies _ here
      refine h.put (c := { s.clients a with pc := .print data }) (fun _ => id)
        ⟨nofun, fun data' pc' => ?_, (h.clients a).printed⟩ (fun _ => .inl) fewer
      cases pc'
      exact ⟨answered, fresh⟩
  | @make a pc =>
      obtain ⟨asked, before, time⟩ := h.make a pc
      refine h.idle rfl le_rfl (List.Subset.refl _) (List.Subset.refl _) (fun _ => .inl) nofun ?_
      intro b data pc'
      cases pc'
      exact ⟨asked, s.now, time, before, le_rfl, rfl⟩
  | @answer a data pc =>
      have fresh := h.send a data pc
      refine h.idle rfl le_rfl (List.subset_append_left _ _) (List.Subset.refl _) (fun q mem => ?_) ?_ ?_
      · rcases List.mem_append.mp mem with old | new
        · exact .inl old
        · obtain rfl := List.mem_singleton.mp new
          exact .inr ⟨List.mem_append_right _ (List.mem_singleton.mpr rfl), fresh⟩
      · intro b pc'
        dsimp only at pc'
        split at pc' <;> cases pc'
      · intro b data pc'
        dsimp only at pc'
        split at pc' <;> cases pc'
  | @serve i again a data rest pc here fewer =>
      refine h.idle rfl le_rfl (List.Subset.refl _) fewer (fun _ => .inl) ?_ nofun
      intro b pc'
      cases pc'
      exact h.requests _ here
  | loseRequest fewer =>
      exact h.idle rfl le_rfl (List.Subset.refl _) fewer (fun _ => .inl) h.make h.send
  | loseReply fewer =>
      exact h.idle rfl le_rfl (List.Subset.refl _) (List.Subset.refl _) (fun q mem => .inl (fewer mem))
        h.make h.send

theorem System.sound (reached : Reach (System.step p) anyStep .start s) : s.Sound p :=
  reached.invariant (I := System.Sound p)
    ⟨fun _ => ⟨fun _ => rfl, nofun, nofun⟩, nofun, nofun, nofun, nofun⟩
    fun _ _ _ h _ step => h.move (System.move step)

/-- What a client prints was made after its request and before it prints it. -/
theorem System.made_between (reached : Reach (System.step p) anyStep .start s) {a : α} {time : ℕ} {text : π}
    (out : (s.clients a).printed = some (time, text)) :
    ∃ asked made, (s.clients a).asked = some asked ∧ asked ≤ made ∧ made ≤ time ∧
      text = p.print (p.reply made) := by
  obtain ⟨_, _, _, ⟨asked, made, time, after, before, rfl⟩, rfl⟩ :=
    ((System.sound reached).clients a).printed time text out
  exact ⟨asked, made, time, after, before, rfl⟩

/-- The server that has replied `limit` times replies no more. -/
theorem System.answered_le {n : ℕ} (limit : p.limit = some n) (positive : 0 < n)
    (reached : Reach (System.step p) anyStep .start s) : s.answered.length ≤ n := by
  have both : s.answered.length ≤ n ∧ (s.answered.length = n → s.pc = .done) := by
    refine reached.invariant
      (I := fun s => s.answered.length ≤ n ∧ (s.answered.length = n → s.pc = .done))
      ⟨Nat.zero_le n, fun none => absurd none positive.ne⟩ ?_
    rintro s e t ⟨le, last⟩ _ step
    cases System.move step with
    | tick | ask | print | hear | loseRequest | loseReply => exact ⟨le, last⟩
    | make pc | serve pc =>
        refine ⟨le, fun whole => ?_⟩
        have ended := last whole
        rw [pc] at ended
        cases ended
    | answer pc =>
        have more : s.answered.length ≠ n := by
          intro whole
          have ended := last whole
          rw [pc] at ended
          cases ended
        rw [List.length_append, List.length_singleton]
        refine ⟨by omega, fun whole => if_pos ?_⟩
        rw [limit, whole]
  exact both.1

/-- So no more than that many clients ever print anything. -/
theorem System.printed_le {n : ℕ} (limit : p.limit = some n) (positive : 0 < n)
    (reached : Reach (System.step p) anyStep .start s) {l : List α} (distinct : l.Nodup)
    (printed : ∀ a ∈ l, (s.clients a).printed ≠ none) : l.length ≤ n := by
  have answered : l ⊆ s.answered := by
    intro a mem
    obtain ⟨⟨time, text⟩, out⟩ := Option.ne_none_iff_exists'.mp (printed a mem)
    exact (((System.sound reached).clients a).printed time text out).1
  exact (distinct.subperm answered).length_le.trans (System.answered_le limit positive reached)

theorem System.runs (unlimited : p.limit = none) (reached : Reach (System.step p) anyStep .start s) :
    s.pc ≠ .done := by
  refine reached.invariant (I := fun s => s.pc ≠ .done) (fun pc => by cases pc) ?_
  intro s e t runs _ step
  cases System.move step with
  | tick | ask | print | hear | loseRequest | loseReply => exact runs
  | make | serve => exact fun pc => by cases pc
  | answer =>
      rw [unlimited, if_neg (Option.some_ne_none _).symm]
      exact fun pc => by cases pc

/-- A server with a request in hand answers it, and goes on. -/
theorem System.answers (unlimited : p.limit = none) {a : α}
    (pc : s.pc = .make a ∨ ∃ data, s.pc = .send a data) :
    ∃ t data, Reach (System.step p) anyStep s t ∧ t.pc = .receive ∧ t.clients = s.clients ∧
      t.requests = s.requests ∧ (a, data) ∈ t.replies := by
  have sends {s : System α β π} {data : β} (pc : s.pc = .send a data) :
      ∃ t data, Reach (System.step p) anyStep s t ∧ t.pc = .receive ∧ t.clients = s.clients ∧
        t.requests = s.requests ∧ (a, data) ∈ t.replies := by
    have step : s.step p .server = some { s with
        pc := .receive, answered := s.answered ++ [a], replies := s.replies ++ [(a, data)] } := by
      simp only [System.step, serverStep, pc, unlimited]
      rfl
    exact ⟨_, data, .single trivial step, rfl, rfl, rfl, List.mem_append_right _ (List.mem_singleton.mpr rfl)⟩
  rcases pc with make | ⟨data, send⟩
  · have step : s.step p .server = some { s with pc := .send a (p.reply s.now) } := by
      simp only [System.step, serverStep, make]
    obtain ⟨t, data, reached, rest⟩ := sends (s := { s with pc := .send a (p.reply s.now) }) rfl
    exact ⟨t, data, (Reach.single trivial step).trans reached, rest⟩
  · exact sends send

/-- Whatever has happened, a client whose request is in transit can still get its reply. -/
theorem System.served (unlimited : p.limit = none) (reached : Reach (System.step p) anyStep .start s)
    {a : α} {data : β} (waits : (s.clients a).pc = .receive) (sent : (a, data) ∈ s.requests) :
    ∃ t, Reach (System.step p) anyStep s t ∧ (t.clients a).printed ≠ none := by
  obtain ⟨u, ready, pc, clients, requests⟩ : ∃ u, Reach (System.step p) anyStep s u ∧ u.pc = .receive ∧
      u.clients = s.clients ∧ u.requests = s.requests := by
    have busy {b : α} (pc : s.pc = .make b ∨ ∃ data, s.pc = .send b data) : ∃ u,
        Reach (System.step p) anyStep s u ∧ u.pc = .receive ∧ u.clients = s.clients ∧
          u.requests = s.requests := by
      obtain ⟨u, _, answered, ready, clients, requests, _⟩ := System.answers unlimited pc
      exact ⟨u, answered, ready, clients, requests⟩
    cases pc : s.pc with
    | receive => exact ⟨s, .refl, pc, rfl, rfl⟩
    | make b => exact busy (.inl pc)
    | send b data => exact busy (.inr ⟨data, pc⟩)
    | done => exact absurd pc (System.runs unlimited reached)
  obtain ⟨i, here⟩ := List.getElem?_of_mem (requests ▸ sent)
  have takes : u.step p (.serverReceive i true) = some { u with pc := .make a } := by
    simp only [System.step, serverReceive, Network.arrive, here, pc, Option.map_some, if_true]
  obtain ⟨v, reply, answered, _, clients', _, back⟩ :=
    System.answers unlimited (s := { u with pc := .make a }) (.inl rfl)
  obtain ⟨j, here'⟩ := List.getElem?_of_mem back
  have same : v.clients a = s.clients a := congrFun (clients'.trans clients) a
  have hears : v.step p (.clientReceive j true) = some (v.put a { v.clients a with pc := .print reply }) := by
    simp only [System.step, clientReceive, Network.arrive, here', same, waits, Option.map_some, if_true]
    rfl
  have prints : (v.put a { v.clients a with pc := .print reply }).step p (.client a) =
      some ((v.put a { v.clients a with pc := .print reply }).put a
        { v.clients a with pc := .done, printed := some (v.now, p.print reply) }) := by
    simp only [System.step, clientStep, put, Function.update_self]
  refine ⟨_, ((((ready.tail trivial takes).trans answered).tail trivial hears).tail trivial prints), ?_⟩
  simp [put]

end RequestReply
