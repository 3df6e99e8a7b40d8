import Mathlib.Logic.Function.Basic
import NetworksLab.DatagramRounds
import NetworksLab.Network
import NetworksLab.OrderedLog

/-! `UDPServer` with any number of `UDPClient`s, on a network that may lose packets
and lets them overtake each other. The server answers whoever it has heard last;
each client still has a chat of its own with it. -/
namespace DatagramClients
open DatagramChat Transition

variable {α : Type*}

/-- `peer` is what `IPAddress` and `port` hold, `heard` what the server has
received and `sent` the lines it has sent, each with the client it was from or to;
`lost` is whose packets were lost. -/
structure System (α : Type*) where
  clients : α → End
  server : End
  peer : Option α
  heard : List (α × Text)
  sent : List (α × Text)
  toServer : List (α × DatagramChat.Bytes)
  toClients : List (α × DatagramChat.Bytes)
  lost : List α

def System.start : System α where
  clients _ := ⟨.readLine, [], [], 0, []⟩
  server := ⟨.receive, [], [], 0, []⟩
  peer := none
  heard := []
  sent := []
  toServer := []
  toClients := []
  lost := []

/-- The index is that of the packet in transit that arrives or gets lost. -/
inductive Event (α : Type*)
  | client (a : α)
  | clientReceive (i : Nat)
  | server
  | serverReceive (i : Nat)
  | loseToServer (i : Nat)
  | loseToClient (i : Nat)

variable [DecidableEq α] (malformed : DatagramChat.Bytes → Text)

def System.put (s : System α) (a : α) (e : End) : System α :=
  { s with clients := Function.update s.clients a e }

/-- The statements of a client but `receive`. -/
def System.clientStep (lines : α → Nat → Text) (s : System α) (a : α) : Option (System α) :=
  let e := s.clients a
  match e.pc with
  | .readLine => some (s.put a (e.readLine (lines a)))
  | .send => some { s.put a { e with pc := .receive } with
      toServer := s.toServer ++ [(a, getBytes e.typed)] }
  | .test => some (s.put a (e.test .readLine))
  | .receive | .done => none

def System.clientReceive (s : System α) (i : Nat) : Option (System α) :=
  match Network.arrive s.toClients i false with
  | none => none
  | some ((a, d), rest) =>
      if (s.clients a).pc = .receive then
        some { s.put a ((s.clients a).receive (newString malformed (getData d)) .test) with
          toClients := rest }
      else none

/-- The statements of the server but `receive`. -/
def System.serverStep (lines : Nat → Text) (s : System α) : Option (System α) :=
  match s.server.pc with
  | .readLine => some { s with server := s.server.readLine lines }
  | .send =>
      match s.peer with
      | none => none
      | some a => some { s with
          server := { s.server with pc := .test }
          sent := s.sent ++ [(a, s.server.typed)]
          toClients := s.toClients ++ [(a, getBytes s.server.typed)] }
  | .test => some { s with server := s.server.test .receive }
  | .receive | .done => none

def System.serverReceive (s : System α) (i : Nat) : Option (System α) :=
  match Network.arrive s.toServer i false with
  | none => none
  | some ((a, d), rest) =>
      if s.server.pc = .receive then
        let text := newString malformed (getData d)
        some { s with
          server := s.server.receive text .readLine
          peer := some a
          heard := s.heard ++ [(a, text)]
          toServer := rest }
      else none

/-- The clients type the lines `c` and the server `l`. -/
def System.step (c : α → Nat → Text) (l : Nat → Text) (s : System α) : Event α → Option (System α)
  | .client a => s.clientStep c a
  | .clientReceive i => s.clientReceive malformed i
  | .server => s.serverStep l
  | .serverReceive i => s.serverReceive malformed i
  | .loseToServer i => (s.toServer[i]?).map fun p =>
      { s with toServer := s.toServer.eraseIdx i, lost := s.lost ++ [p.1] }
  | .loseToClient i => (s.toClients[i]?).map fun p =>
      { s with toClients := s.toClients.eraseIdx i, lost := s.lost ++ [p.1] }

/-- Whose line the server has received and not answered yet. -/
def System.serving (s : System α) : Option α :=
  match s.server.pc with
  | .readLine | .send => s.peer
  | .receive | .test | .done => none

/-- The entries that carry the address. -/
def about {β : Type*} (a : α) (l : List (α × β)) : List β := (l.filter (·.1 = a)).map (·.2)

/-- The part of the system that concerns one client. -/
structure View where
  self : End
  heard : List Text
  answers : List Text
  requests : List DatagramChat.Bytes
  replies : List DatagramChat.Bytes
  served : Bool
  lost : Bool

def System.view (s : System α) (a : α) : View where
  self := s.clients a
  heard := about a s.heard
  answers := about a s.sent
  requests := about a s.toServer
  replies := about a s.toClients
  served := s.serving = some a
  lost := a ∈ s.lost

/-- What a step of the system can do to this part of it. -/
inductive View.Move (lines : Nat → Text) (v : View) : View → Prop
  | stay : Move lines v v
  | readLine (pc : v.self.pc = .readLine) : Move lines v { v with self := v.self.readLine lines }
  | send (pc : v.self.pc = .send) : Move lines v { v with
      self := { v.self with pc := .receive }
      requests := v.requests ++ [getBytes v.self.typed] }
  | test (pc : v.self.pc = .test) : Move lines v { v with self := v.self.test .readLine }
  | receive {d ahead behind} (pc : v.self.pc = .receive) (here : v.replies = ahead ++ [d] ++ behind) :
      Move lines v { v with
        self := v.self.receive (newString malformed (getData d)) .test
        replies := ahead ++ behind }
  | hear {d ahead behind} (here : v.requests = ahead ++ [d] ++ behind) :
      Move lines v { v with
        heard := v.heard ++ [newString malformed (getData d)]
        requests := ahead ++ behind
        served := true }
  | answer {line} (serving : v.served = true) (fits : Fits line) : Move lines v { v with
      answers := v.answers ++ [line]
      replies := v.replies ++ [getBytes line]
      served := false }
  | loseRequest {d ahead behind} (here : v.requests = ahead ++ [d] ++ behind) :
      Move lines v { v with requests := ahead ++ behind, lost := true }
  | loseReply {d ahead behind} (here : v.replies = ahead ++ [d] ++ behind) :
      Move lines v { v with replies := ahead ++ behind, lost := true }

variable {malformed} {c : α → Nat → Text} {l : Nat → Text} {s t : System α} {a : α} {i : Nat}

theorem about_concat {β : Type*} (a b : α) (xs : List (α × β)) (x : β) :
    about a (xs ++ [(b, x)]) = about a xs ++ if b = a then [x] else [] := by
  rw [about, List.filter_append, List.map_append]
  by_cases same : b = a <;> simp [about, same]

theorem about_eraseIdx {β : Type*} {xs : List (α × β)} {b : α} {x : β} (here : xs[i]? = some (b, x))
    (a : α) : ∃ ahead behind, about a xs = ahead ++ (if b = a then [x] else []) ++ behind ∧
      about a (xs.eraseIdx i) = ahead ++ behind := by
  obtain ⟨ahead, behind, whole, rest⟩ := Network.filter_eraseIdx (·.1) here a
  refine ⟨ahead.map (·.2), behind.map (·.2), ?_, ?_⟩
  · rw [about, whole]
    split <;> simp
  · rw [about, rest, List.map_append]

theorem System.view_put_self (s : System α) (a : α) (e : End) :
    (s.put a e).view a = { s.view a with self := e } := by
  have self : (s.put a e).clients a = e := Function.update_self ..
  rw [System.view, self]
  rfl

theorem System.view_put_ne (s : System α) (e : End) {b : α} (other : b ≠ a) :
    (s.put a e).view b = s.view b := by
  have self : (s.put a e).clients b = s.clients b := Function.update_of_ne other ..
  rw [System.view, self]
  rfl

theorem System.view_server {e : End}
    (serving : ({ s with server := e } : System α).serving = s.serving) (b : α) :
    ({ s with server := e } : System α).view b = s.view b := by
  rw [System.view, serving]
  rfl

theorem System.clientStep_view (step : s.clientStep c a = some t) (b : α) :
    View.Move malformed (c b) (s.view b) (t.view b) := by
  unfold System.clientStep at step
  dsimp only at step
  by_cases own : b = a
  · subst own
    split at step <;> rename_i pc
    · rw [← Option.some.inj step, System.view_put_self]
      exact .readLine pc
    · rw [← Option.some.inj step]
      change View.Move malformed (c b) (s.view b)
        { (s.put b { s.clients b with pc := .receive }).view b with
          requests := about b (s.toServer ++ [(b, getBytes (s.clients b).typed)]) }
      rw [System.view_put_self, about_concat, if_pos rfl]
      exact .send pc
    · rw [← Option.some.inj step, System.view_put_self]
      exact .test pc
    · cases step
    · cases step
  · split at step
    · rw [← Option.some.inj step, System.view_put_ne _ _ own]
      exact .stay
    · rw [← Option.some.inj step]
      change View.Move malformed (c b) (s.view b)
        { (s.put a { s.clients a with pc := .receive }).view b with
          requests := about b (s.toServer ++ [(a, getBytes (s.clients a).typed)]) }
      rw [System.view_put_ne _ _ own, about_concat, if_neg (Ne.symm own), List.append_nil]
      exact .stay
    · rw [← Option.some.inj step, System.view_put_ne _ _ own]
      exact .stay
    · cases step
    · cases step

theorem System.clientReceive_view (step : s.clientReceive malformed i = some t) (b : α) :
    View.Move malformed (c b) (s.view b) (t.view b) := by
  unfold System.clientReceive at step
  split at step
  · cases step
  · next a d rest arrived =>
      rw [Option.ite_none_right_eq_some] at step
      obtain ⟨pc, same⟩ := step
      obtain ⟨here, left⟩ := Network.arrive_eq_some.mp arrived
      obtain ⟨ahead, behind, whole, others⟩ := about_eraseIdx here b
      rw [← Option.some.inj same]
      change View.Move malformed (c b) (s.view b)
        { (s.put a ((s.clients a).receive (newString malformed (getData d)) .test)).view b with
          replies := about b rest }
      rw [left, if_neg Bool.false_ne_true, others]
      by_cases own : b = a
      · subst own
        rw [if_pos rfl] at whole
        rw [System.view_put_self]
        exact .receive pc whole
      · rw [if_neg (Ne.symm own), List.append_nil] at whole
        rw [System.view_put_ne _ _ own, ← whole]
        exact .stay

theorem System.serverStep_view (answers : s.server.pc = .send → Fits s.server.typed)
    (step : s.serverStep l = some t) (b : α) : View.Move malformed (c b) (s.view b) (t.view b) := by
  unfold System.serverStep at step
  split at step <;> rename_i pc
  · rw [← Option.some.inj step]
    have serving : ({ s with server := s.server.readLine l } : System α).serving = s.serving := by
      simp only [System.serving, pc, End.readLine]
    rw [System.view_server serving]
    exact .stay
  · split at step
    · cases step
    · next a peer =>
        rw [← Option.some.inj step]
        have serving : s.serving = some a := by simp [System.serving, pc, peer]
        change View.Move malformed (c b) (s.view b) { s.view b with
          answers := about b (s.sent ++ [(a, s.server.typed)])
          replies := about b (s.toClients ++ [(a, getBytes s.server.typed)])
          served := false }
        rw [about_concat, about_concat]
        by_cases own : a = b
        · rw [if_pos own, if_pos own]
          exact .answer (decide_eq_true (own ▸ serving)) (answers pc)
        · have idle : (s.view b).served = false :=
            decide_eq_false fun same => own (Option.some.inj (serving.symm.trans same))
          rw [if_neg own, if_neg own, List.append_nil, List.append_nil, ← idle]
          exact .stay
  · rw [← Option.some.inj step]
    have serving : ({ s with server := s.server.test .receive } : System α).serving = s.serving := by
      by_cases last : s.server.received = logout ∨ s.server.typed = logout <;>
        simp only [System.serving, pc, End.test, last, if_true, if_false]
    rw [System.view_server serving]
    exact .stay
  · cases step
  · cases step

theorem System.serverReceive_view (step : s.serverReceive malformed i = some t) (b : α) :
    View.Move malformed (c b) (s.view b) (t.view b) := by
  unfold System.serverReceive at step
  split at step
  · cases step
  · next a d rest arrived =>
      rw [Option.ite_none_right_eq_some] at step
      obtain ⟨pc, same⟩ := step
      obtain ⟨here, left⟩ := Network.arrive_eq_some.mp arrived
      obtain ⟨ahead, behind, whole, others⟩ := about_eraseIdx here b
      have idle : (s.view b).served = false := by simp [System.view, System.serving, pc]
      rw [← Option.some.inj same]
      change View.Move malformed (c b) (s.view b) { s.view b with
        heard := about b (s.heard ++ [(a, newString malformed (getData d))])
        requests := about b rest
        served := some a = some b }
      rw [left, if_neg Bool.false_ne_true, others, about_concat]
      by_cases own : a = b
      · rw [if_pos own] at whole ⊢
        rw [decide_eq_true (congrArg some own)]
        exact .hear whole
      · rw [if_neg own, List.append_nil] at whole
        rw [if_neg own, List.append_nil, ← whole, decide_eq_false fun h => own (Option.some.inj h),
          ← idle]
        exact .stay

/-- A loss concerns one client. -/
theorem lost_concat (a b : α) (xs : List α) :
    decide (b ∈ xs ++ [a]) = if a = b then true else decide (b ∈ xs) := by
  by_cases same : a = b
  · rw [if_pos same, same]
    simp
  · rw [if_neg same]
    simp [Ne.symm same]

theorem System.step_view (answers : s.server.pc = .send → Fits s.server.typed) {e : Event α}
    (step : s.step malformed c l e = some t) (b : α) :
    View.Move malformed (c b) (s.view b) (t.view b) := by
  cases e with
  | client a => exact System.clientStep_view step b
  | clientReceive i => exact System.clientReceive_view step b
  | server => exact System.serverStep_view answers step b
  | serverReceive i => exact System.serverReceive_view step b
  | loseToServer i =>
      obtain ⟨⟨a, d⟩, here, rfl⟩ := Option.map_eq_some_iff.mp step
      obtain ⟨ahead, behind, whole, others⟩ := about_eraseIdx here b
      change View.Move malformed (c b) (s.view b) { s.view b with
        requests := about b (s.toServer.eraseIdx i)
        lost := b ∈ s.lost ++ [a] }
      rw [others, lost_concat]
      by_cases own : a = b
      · rw [if_pos own] at whole ⊢
        exact .loseRequest whole
      · rw [if_neg own, List.append_nil] at whole
        rw [if_neg own, ← whole]
        exact .stay
  | loseToClient i =>
      obtain ⟨⟨a, d⟩, here, rfl⟩ := Option.map_eq_some_iff.mp step
      obtain ⟨ahead, behind, whole, others⟩ := about_eraseIdx here b
      change View.Move malformed (c b) (s.view b) { s.view b with
        replies := about b (s.toClients.eraseIdx i)
        lost := b ∈ s.lost ++ [a] }
      rw [others, lost_concat]
      by_cases own : a = b
      · rw [if_pos own] at whole ⊢
        exact .loseReply whole
      · rw [if_neg own, List.append_nil] at whole
        rw [if_neg own, ← whole]
        exact .stay

/-- What holds of a client's part: of its lines and the answers to them there is at
most one on its way. -/
structure Conversation (lines : Nat → Text) (v : View) : Prop where
  heard : v.heard = arrived lines v.heard.length
  printed : v.self.printed = (v.answers.take v.self.printed.length).map padded
  order : v.self.printed.length ≤ v.answers.length ∧ v.answers.length ≤ v.heard.length ∧
    v.heard.length ≤ v.self.reads ∧ v.self.reads ≤ v.self.printed.length + 1
  served : v.served = true ↔ v.answers.length < v.heard.length
  typed : 0 < v.self.reads → v.self.typed = lines (v.self.reads - 1)
  own : v.self.pc ≠ .send → v.self.pc ≠ .receive → v.self.reads = v.self.printed.length
  sending : v.self.pc = .send → v.self.reads = v.heard.length + 1
  waiting : v.self.pc = .receive → v.self.reads = v.self.printed.length + 1 ∧
    (v.lost = true ∨ v.requests ≠ [] ∨ v.served = true ∨ v.replies ≠ [])
  requests : v.requests = [] ∨ v.self.pc = .receive ∧ v.heard.length < v.self.reads ∧
    v.requests = [getBytes (lines v.heard.length)]
  replies : v.replies = [] ∨ v.self.pc = .receive ∧
    ∃ line, Fits line ∧ v.answers[v.self.printed.length]? = some line ∧ v.replies = [getBytes line]
  received : v.self.pc = .test → 0 < v.self.reads ∧ v.self.received ≠ logout
  left : v.self.pc = .done → 0 < v.self.reads ∧ lines (v.self.reads - 1) = logout

theorem eq_of_singleton {β : Type*} {x d : β} {ahead behind : List β}
    (h : [x] = ahead ++ [d] ++ behind) : ahead = [] ∧ d = x ∧ behind = [] := by
  cases ahead with
  | nil =>
      obtain ⟨rfl, rest⟩ := List.cons.inj h
      exact ⟨rfl, rfl, rest.symm⟩
  | cons => simp at h

variable {lines : Nat → Text} {v w : View}

/-- A packet on its way to the server is the line the server has not heard yet. -/
theorem Conversation.request (h : Conversation lines v) {d : DatagramChat.Bytes}
    {ahead behind : List DatagramChat.Bytes} (here : v.requests = ahead ++ [d] ++ behind) :
    v.self.pc = .receive ∧ v.heard.length < v.self.reads ∧ d = getBytes (lines v.heard.length) ∧
      ahead ++ behind = [] := by
  rcases h.requests with none | ⟨pc, more, one⟩
  · rw [none] at here
    simp at here
  · obtain ⟨rfl, rfl, rfl⟩ := eq_of_singleton (one.symm.trans here)
    exact ⟨pc, more, rfl, rfl⟩

theorem Conversation.reply (h : Conversation lines v) {d : DatagramChat.Bytes}
    {ahead behind : List DatagramChat.Bytes} (here : v.replies = ahead ++ [d] ++ behind) :
    ahead ++ behind = [] ∧
      ∃ line, Fits line ∧ v.answers[v.self.printed.length]? = some line ∧ d = getBytes line := by
  rcases h.replies with none | ⟨_, line, fits, next, one⟩
  · rw [none] at here
    simp at here
  · obtain ⟨rfl, rfl, rfl⟩ := eq_of_singleton (one.symm.trans here)
    exact ⟨rfl, line, fits, next, rfl⟩

theorem Conversation.start : Conversation lines ⟨⟨.readLine, [], [], 0, []⟩, [], [], [], [], false, false⟩ := by
  constructor <;> simp [arrived]

theorem Conversation.quiet (h : Conversation lines v) (pc : v.self.pc ≠ .receive) :
    v.requests = [] ∧ v.replies = [] :=
  ⟨h.requests.resolve_right fun busy => pc busy.1, h.replies.resolve_right fun busy => pc busy.1⟩

theorem Conversation.readLine (h : Conversation lines v) (pc : v.self.pc = .readLine) :
    Conversation lines { v with self := v.self.readLine lines } := by
  obtain ⟨printed_le, answers_le, heard_le, reads_le⟩ := h.order
  have own := h.own (by simp [pc]) (by simp [pc])
  obtain ⟨quiet, silent⟩ := h.quiet (by simp [pc])
  have all : v.self.reads + 1 = v.heard.length + 1 := by omega
  exact {
    heard := h.heard
    printed := h.printed
    order := ⟨printed_le, answers_le, Nat.le_succ_of_le heard_le,
      Nat.succ_le_succ (Nat.le_of_eq own)⟩
    served := h.served
    typed := fun _ => rfl
    own := fun busy => absurd rfl busy
    sending := fun _ => all
    waiting := nofun
    requests := .inl quiet
    replies := .inl silent
    received := nofun
    left := nofun }

theorem Conversation.send (h : Conversation lines v) (pc : v.self.pc = .send) :
    Conversation lines { v with
      self := { v.self with pc := .receive }
      requests := v.requests ++ [getBytes v.self.typed] } := by
  obtain ⟨printed_le, answers_le, heard_le, reads_le⟩ := h.order
  have reads := h.sending pc
  obtain ⟨quiet, silent⟩ := h.quiet (by simp [pc])
  have line : v.self.typed = lines v.heard.length := by
    rw [h.typed (by omega), reads, Nat.add_sub_cancel]
  have sent : v.requests ++ [getBytes v.self.typed] = [getBytes (lines v.heard.length)] := by
    rw [quiet, line, List.nil_append]
  have some_sent : v.requests ++ [getBytes v.self.typed] ≠ [] := by simp
  have one : v.self.reads = v.self.printed.length + 1 := by omega
  exact {
    heard := h.heard
    printed := h.printed
    order := h.order
    served := h.served
    typed := h.typed
    own := fun _ busy => absurd rfl busy
    sending := nofun
    waiting := fun _ => ⟨one, .inr (.inl some_sent)⟩
    requests := .inr ⟨rfl, reads ▸ Nat.lt_succ_self _, sent⟩
    replies := .inl silent
    received := nofun
    left := nofun }

theorem Conversation.test (h : Conversation lines v) (pc : v.self.pc = .test) :
    Conversation lines { v with self := v.self.test .readLine } := by
  obtain ⟨printed_le, answers_le, heard_le, reads_le⟩ := h.order
  have own := h.own (by simp [pc]) (by simp [pc])
  obtain ⟨quiet, silent⟩ := h.quiet (by simp [pc])
  obtain ⟨positive, stays⟩ := h.received pc
  have goes (next : Pc) (resumes : next = .readLine ∨ next = .done)
      (left : next = .done → 0 < v.self.reads ∧ lines (v.self.reads - 1) = logout) :
      Conversation lines { v with self := { v.self with pc := next } } := {
    heard := h.heard
    printed := h.printed
    order := h.order
    served := h.served
    typed := h.typed
    own := fun _ _ => own
    sending := by rcases resumes with rfl | rfl <;> simp
    waiting := by rcases resumes with rfl | rfl <;> simp
    requests := .inl quiet
    replies := .inl silent
    received := by rcases resumes with rfl | rfl <;> simp
    left := left }
  by_cases last : v.self.typed = logout
  · rw [End.test, if_pos (.inr last)]
    exact goes .done (.inr rfl) fun _ => ⟨positive, h.typed positive ▸ last⟩
  · rw [End.test, if_neg (by simp [stays, last])]
    exact goes .readLine (.inl rfl) (by simp)

theorem Conversation.receive (h : Conversation lines v) (pc : v.self.pc = .receive)
    {d : DatagramChat.Bytes} {ahead behind : List DatagramChat.Bytes}
    (here : v.replies = ahead ++ [d] ++ behind) :
    Conversation lines { v with
      self := v.self.receive (newString malformed (getData d)) .test
      replies := ahead ++ behind } := by
  obtain ⟨printed_le, answers_le, heard_le, reads_le⟩ := h.order
  obtain ⟨reads, _⟩ := h.waiting pc
  obtain ⟨none_left, line, fits, next, rfl⟩ := h.reply here
  have answered := (List.getElem?_eq_some_iff.mp next).1
  have quiet : v.requests = [] := h.requests.resolve_right fun busy => by omega
  have shown : newString malformed (getData (getBytes line)) = padded line := newString_getData fits
  have size : (v.self.printed ++ [newString malformed (getData (getBytes line))]).length =
      v.self.printed.length + 1 := by simp
  have printed : v.self.printed ++ [newString malformed (getData (getBytes line))] =
      (v.answers.take (v.self.printed ++
        [newString malformed (getData (getBytes line))]).length).map padded := by
    rw [size, List.take_add_one, next, List.map_append, ← h.printed, shown]
    rfl
  exact {
    heard := h.heard
    printed := printed
    order := ⟨size ▸ answered, answers_le, heard_le, size ▸ Nat.le_succ_of_le (Nat.le_of_eq reads)⟩
    served := h.served
    typed := h.typed
    own := fun _ _ => reads.trans size.symm
    sending := nofun
    waiting := nofun
    requests := .inl quiet
    replies := .inl none_left
    received := fun _ => ⟨reads ▸ Nat.succ_pos _, shown ▸ padded_ne_logout fits⟩
    left := nofun }

theorem Conversation.hear (fits : ∀ i, Fits (lines i)) (h : Conversation lines v)
    {d : DatagramChat.Bytes} {ahead behind : List DatagramChat.Bytes}
    (here : v.requests = ahead ++ [d] ++ behind) :
    Conversation lines { v with
      heard := v.heard ++ [newString malformed (getData d)]
      requests := ahead ++ behind
      served := true } := by
  obtain ⟨printed_le, answers_le, heard_le, reads_le⟩ := h.order
  obtain ⟨pc, more, rfl, none_left⟩ := h.request here
  have size (text : Text) : (v.heard ++ [text]).length = v.heard.length + 1 := by simp
  have heard : v.heard ++ [newString malformed (getData (getBytes (lines v.heard.length)))] =
      arrived lines (v.heard.length + 1) := by
    rw [newString_getData (fits _), arrived_succ, ← h.heard]
  exact {
    heard := by rwa [← size] at heard
    printed := h.printed
    order := ⟨printed_le, size _ ▸ Nat.le_succ_of_le answers_le, size _ ▸ more, reads_le⟩
    served := iff_of_true rfl (size _ ▸ Nat.lt_succ_of_le answers_le)
    typed := h.typed
    own := h.own
    sending := fun busy => by cases pc.symm.trans busy
    waiting := fun _ => ⟨(h.waiting pc).1, .inr (.inr (.inl rfl))⟩
    requests := .inl none_left
    replies := h.replies
    received := h.received
    left := h.left }

theorem Conversation.answer (h : Conversation lines v) (serving : v.served = true) {line : Text}
    (fits : Fits line) :
    Conversation lines { v with
      answers := v.answers ++ [line]
      replies := v.replies ++ [getBytes line]
      served := false } := by
  obtain ⟨printed_le, answers_le, heard_le, reads_le⟩ := h.order
  have behind := h.served.mp serving
  have pc : v.self.pc = .receive := by
    by_contra other
    by_cases sending : v.self.pc = .send
    · have := h.sending sending
      omega
    · have := h.own sending other
      omega
  have quiet : v.requests = [] := h.requests.resolve_right fun busy => by omega
  have silent : v.replies = [] := h.replies.resolve_right fun ⟨_, _, _, next, _⟩ => by
    have := (List.getElem?_eq_some_iff.mp next).1
    omega
  have size : (v.answers ++ [line]).length = v.answers.length + 1 := by simp
  have level : v.self.printed.length = v.answers.length := by omega
  have caught : ¬ v.answers.length + 1 < v.heard.length := by omega
  have next : (v.answers ++ [line])[v.self.printed.length]? = some line := by
    rw [level, List.getElem?_concat_length]
  have replied : v.replies ++ [getBytes line] = [getBytes line] := by rw [silent, List.nil_append]
  have some_replied : v.replies ++ [getBytes line] ≠ [] := by simp
  exact {
    heard := h.heard
    printed := by
      rw [List.take_append_of_le_length printed_le]
      exact h.printed
    order := ⟨size ▸ Nat.le_succ_of_le printed_le, size ▸ behind, heard_le, reads_le⟩
    served := iff_of_false Bool.false_ne_true (size ▸ caught)
    typed := h.typed
    own := h.own
    sending := h.sending
    waiting := fun _ => ⟨(h.waiting pc).1, .inr (.inr (.inr some_replied))⟩
    requests := .inl quiet
    replies := .inr ⟨pc, line, fits, next, replied⟩
    received := h.received
    left := h.left }

theorem Conversation.lose (h : Conversation lines v) {requests replies : List DatagramChat.Bytes}
    (quiet : requests = [] ∨ requests = v.requests) (silent : replies = [] ∨ replies = v.replies) :
    Conversation lines { v with requests, replies, lost := true } := {
  h with
  waiting := fun pc => ⟨(h.waiting pc).1, .inl rfl⟩
  requests := by
    rcases quiet with rfl | rfl
    · exact .inl rfl
    · exact h.requests
  replies := by
    rcases silent with rfl | rfl
    · exact .inl rfl
    · exact h.replies }

theorem Conversation.move (fits : ∀ i, Fits (lines i)) (h : Conversation lines v)
    (move : View.Move malformed lines v w) : Conversation lines w := by
  cases move with
  | stay => exact h
  | readLine pc => exact h.readLine pc
  | send pc => exact h.send pc
  | test pc => exact h.test pc
  | receive pc here => exact h.receive pc here
  | hear here => exact h.hear fits here
  | answer serving fits => exact h.answer serving fits
  | loseRequest here =>
      obtain ⟨_, _, _, none_left⟩ := h.request here
      exact h.lose (.inl none_left) (.inr rfl)
  | loseReply here =>
      obtain ⟨none_left, _⟩ := h.reply here
      exact h.lose (.inr rfl) (.inl none_left)

/-- The server goes round by round, whoever it hears. -/
structure System.Serves (l : Nat → Text) (s : System α) : Prop where
  lines : s.sent.map (·.2) = (List.range s.sent.length).map l
  turns : s.heard.map (·.1) = s.sent.map (·.1) ++ s.serving.toList
  typed : 0 < s.server.reads → s.server.typed = l (s.server.reads - 1)
  sending : s.server.pc = .send → s.server.reads = s.sent.length + 1
  reads : s.server.pc ≠ .send → s.server.reads = s.sent.length
  waiting : s.server.pc = .receive ∨ s.server.pc = .done ∨
    (s.server.pc = .test → 0 < s.server.reads) ∧ s.server.received ≠ logout
  left : s.server.pc = .done → 0 < s.server.reads ∧ l (s.server.reads - 1) = logout

omit [DecidableEq α] in
theorem System.Serves.start : (System.start : System α).Serves l :=
  ⟨rfl, rfl, nofun, nofun, fun _ => rfl, .inl rfl, nofun⟩

omit [DecidableEq α] in
/-- A step of a client or the network leaves the server's side as it is. -/
theorem System.Serves.frame (h : s.Serves l) (server : t.server = s.server) (peer : t.peer = s.peer)
    (heard : t.heard = s.heard) (sent : t.sent = s.sent) : t.Serves l := by
  have serving : t.serving = s.serving := by rw [System.serving, server, peer]; rfl
  constructor
  · rw [sent]; exact h.lines
  · rw [heard, sent, serving]; exact h.turns
  · rw [server]; exact h.typed
  · rw [server, sent]; exact h.sending
  · rw [server, sent]; exact h.reads
  · rw [server]; exact h.waiting
  · rw [server]; exact h.left

omit [DecidableEq α] in
theorem System.Serves.serverStep (h : s.Serves l) (step : s.serverStep l = some t) : t.Serves l := by
  unfold System.serverStep at step
  split at step <;> rename_i pc
  · obtain rfl := Option.some.inj step
    have reads := h.reads (by simp [pc])
    have received := (h.waiting.resolve_left (by simp [pc])).resolve_left (by simp [pc])
    exact {
      lines := h.lines
      turns := by
        have turns := h.turns
        simp only [System.serving, pc] at turns
        exact turns
      typed := fun _ => rfl
      sending := fun _ => congrArg (· + 1) reads
      reads := fun busy => absurd rfl busy
      waiting := .inr (.inr ⟨fun test => (by cases test), received.2⟩)
      left := fun done => by cases done }
  · split at step
    · cases step
    · next a peer =>
        obtain rfl := Option.some.inj step
        have reads := h.sending pc
        have received := (h.waiting.resolve_left (by simp [pc])).resolve_left (by simp [pc])
        have turns := h.turns
        simp only [System.serving, pc, peer, Option.toList_some] at turns
        have line : s.server.typed = l s.sent.length := by
          rw [h.typed (by omega), reads, Nat.add_sub_cancel]
        exact {
          lines := by
            rw [List.map_append, h.lines, List.length_append, List.length_singleton,
              Firsts.map_range_succ, ← line]
            rfl
          turns := by
            rw [List.map_append, turns]
            exact (List.append_nil _).symm
          typed := h.typed
          sending := by simp
          reads := fun _ => by rw [List.length_append]; exact reads
          waiting := .inr (.inr ⟨fun _ => by change 0 < s.server.reads; omega, received.2⟩)
          left := by simp }
  · obtain rfl := Option.some.inj step
    have reads := h.reads (by simp [pc])
    obtain ⟨positive, stays⟩ := (h.waiting.resolve_left (by simp [pc])).resolve_left (by simp [pc])
    have turns := h.turns
    simp only [System.serving, pc] at turns
    by_cases last : s.server.typed = logout
    · rw [End.test, if_pos (.inr last)]
      exact ⟨h.lines, turns, h.typed, by simp, fun _ => reads, .inr (.inl rfl),
        fun _ => ⟨positive pc, h.typed (positive pc) ▸ last⟩⟩
    · rw [End.test, if_neg (by simp [stays, last])]
      exact ⟨h.lines, turns, h.typed, by simp, fun _ => reads, .inl rfl, by simp⟩
  · cases step
  · cases step

theorem System.Serves.serverReceive (cFits : ∀ a i, Fits (c a i)) (h : s.Serves l)
    (clients : ∀ a, Conversation (c a) (s.view a)) (step : s.serverReceive malformed i = some t) :
    t.Serves l := by
  unfold System.serverReceive at step
  split at step
  · cases step
  · next a d rest arrived =>
      rw [Option.ite_none_right_eq_some] at step
      obtain ⟨pc, same⟩ := step
      obtain ⟨here, _⟩ := Network.arrive_eq_some.mp arrived
      obtain ⟨ahead, behind, whole, _⟩ := about_eraseIdx here a
      rw [if_pos rfl] at whole
      obtain ⟨_, _, rfl, _⟩ := (clients a).request whole
      have received : newString malformed (getData (getBytes (c a (s.view a).heard.length))) = _ :=
        newString_getData (cFits a _)
      have turns := h.turns
      simp only [System.serving, pc, Option.toList_none, List.append_nil] at turns
      rw [← Option.some.inj same]
      exact {
        lines := h.lines
        turns := by
          rw [List.map_append, turns]
          rfl
        typed := h.typed
        sending := nofun
        reads := fun _ => h.reads (by simp [pc])
        waiting := .inr (.inr ⟨nofun, received ▸ padded_ne_logout (cFits a _)⟩)
        left := nofun }

theorem System.Serves.step (cFits : ∀ a i, Fits (c a i)) (h : s.Serves l)
    (clients : ∀ a, Conversation (c a) (s.view a)) {e : Event α}
    (step : s.step malformed c l e = some t) : t.Serves l := by
  cases e with
  | client a =>
      simp only [System.step, System.clientStep] at step
      split at step <;> cases step
      all_goals exact h.frame rfl rfl rfl rfl
  | clientReceive i =>
      simp only [System.step, System.clientReceive] at step
      split at step
      · cases step
      · rw [Option.ite_none_right_eq_some] at step
        obtain ⟨_, same⟩ := step
        cases same
        exact h.frame rfl rfl rfl rfl
  | server => exact h.serverStep step
  | serverReceive i => exact h.serverReceive cFits clients step
  | loseToServer i | loseToClient i =>
      obtain ⟨p, _, rfl⟩ := Option.map_eq_some_iff.mp step
      exact h.frame rfl rfl rfl rfl

/-- What holds in every state. -/
structure System.Chats (c : α → Nat → Text) (l : Nat → Text) (s : System α) : Prop where
  clients : ∀ a, Conversation (c a) (s.view a)
  server : s.Serves l

theorem System.chats (cFits : ∀ a i, Fits (c a i)) (sFits : ∀ i, Fits (l i))
    (reached : Reach (System.step malformed c l) anyStep .start s) : s.Chats c l := by
  apply reached.invariant (I := System.Chats c l) ⟨fun _ => Conversation.start, .start⟩
  intro s e t inv _ step
  have answers (pc : s.server.pc = .send) : Fits s.server.typed := by
    rw [inv.server.typed (by rw [inv.server.sending pc]; exact Nat.succ_pos _)]
    exact sFits _
  exact ⟨fun a => (inv.clients a).move (cFits a) (System.step_view answers step a),
    inv.server.step cFits inv.clients step⟩

omit [DecidableEq α] in
/-- The server's line in its `j`-th turn goes to the client heard in that turn. -/
theorem System.Serves.answered (h : s.Serves l) {j : Nat} {line : Text}
    (sent : s.sent[j]? = some (a, line)) : line = l j ∧ ∃ text, s.heard[j]? = some (a, text) := by
  have below := (List.getElem?_eq_some_iff.mp sent).1
  constructor
  · have second : (s.sent.map (·.2))[j]? = some line := by rw [List.getElem?_map, sent]; rfl
    rw [h.lines, List.getElem?_map, List.getElem?_range below] at second
    exact (Option.some.inj second).symm
  · have first : (s.heard.map (·.1))[j]? = some a := by
      rw [h.turns, List.getElem?_append_left (by rwa [List.length_map]), List.getElem?_map, sent]
      rfl
    rw [List.getElem?_map, Option.map_eq_some_iff] at first
    obtain ⟨⟨b, text⟩, heard, rfl⟩ := first
    exact ⟨text, heard⟩

/-- Up to a turn the server has heard a client as often as it has answered it. -/
theorem System.Serves.counts (h : s.Serves l) {j : Nat} (below : j ≤ s.sent.length) :
    ((s.heard.take j).filter (·.1 = a)).length = ((s.sent.take j).filter (·.1 = a)).length := by
  have same : (s.heard.take j).map (·.1) = (s.sent.take j).map (·.1) := by
    rw [List.map_take, List.map_take, h.turns, List.take_append_of_le_length (by simpa using below)]
  have count (xs : List (α × Text)) :
      (xs.filter (·.1 = a)).length = ((xs.map (·.1)).filter (· = a)).length := by
    rw [List.filter_map, List.length_map]
    rfl
  rw [count, count, same]

theorem about_eq_some {β : Type*} {xs : List (α × β)} {k : Nat} {x : β} :
    (about a xs)[k]? = some x ↔ (xs.filter (·.1 = a))[k]? = some (a, x) := by
  rw [about, List.getElem?_map, Option.map_eq_some_iff]
  constructor
  · rintro ⟨⟨b, x⟩, here, rfl⟩
    obtain rfl : b = a := of_decide_eq_true (List.mem_filter.mp (List.mem_of_getElem? here)).2
    exact here
  · exact fun here => ⟨_, here, rfl⟩

/-- However the clients' rounds interleave and whatever gets lost or overtaken: the
`k`-th string that a client prints is the line the server has typed on receiving
that client's `k`-th line. A client waits for one answer at a time, and in vain
only once a packet of its own is lost or the server has left. Both kinds leave on
their own "logout" alone. -/
theorem rounds_private (cFits : ∀ a i, Fits (c a i)) (sFits : ∀ i, Fits (l i))
    (reached : Reach (System.step malformed c l) anyStep .start s) (a : α) :
    (∀ k text, (s.clients a).printed[k]? = some text →
      ∃ j, ((s.heard.take j).filter (·.1 = a)).length = k ∧
        s.heard[j]? = some (a, padded (c a k)) ∧ text = padded (l j)) ∧
    (s.clients a).printed.length ≤ (about a s.heard).length ∧
    (about a s.heard).length ≤ (s.clients a).reads ∧
    (s.clients a).reads ≤ (s.clients a).printed.length + 1 ∧
    ((s.clients a).pc = .receive → a ∉ s.lost →
      about a s.toServer ≠ [] ∨ s.serving = some a ∨ about a s.toClients ≠ []) ∧
    ((s.clients a).pc = .done → c a ((s.clients a).reads - 1) = logout) ∧
    (s.server.pc = .done → l (s.server.reads - 1) = logout) := by
  have chats := System.chats cFits sFits reached
  have own := chats.clients a
  obtain ⟨printed_le, answers_le, heard_le, reads_le⟩ := own.order
  refine ⟨fun k text printed => ?_, Nat.le_trans printed_le answers_le, heard_le, reads_le,
    fun pc kept => ?_, fun done => (own.left done).2, fun done => (chats.server.left done).2⟩
  · have shown : (s.clients a).printed =
        ((about a s.sent).take (s.clients a).printed.length).map padded := own.printed
    rw [shown, List.getElem?_map, Option.map_eq_some_iff] at printed
    obtain ⟨line, taken, rfl⟩ := printed
    rw [List.getElem?_take, Option.ite_none_right_eq_some] at taken
    have answer := taken.2
    obtain ⟨j, sent, count⟩ := OrderedLog.exists_of_filter (about_eq_some.mp answer)
    obtain ⟨rfl, text, heard⟩ := chats.server.answered sent
    have below := (List.getElem?_eq_some_iff.mp sent).1
    rw [← chats.server.counts (Nat.le_of_lt below)] at count
    have place : (s.heard.filter (·.1 = a))[k]? = some (a, text) :=
      count ▸ OrderedLog.filter_getElem? heard (decide_eq_true rfl)
    rw [← about_eq_some] at place
    have all : about a s.heard = arrived (c a) (about a s.heard).length := own.heard
    rw [all] at place
    obtain ⟨i, here, rfl⟩ := List.getElem?_eq_some_iff.mp place
    refine ⟨j, count, heard.trans ?_, rfl⟩
    simp [arrived]
  · rcases (own.waiting pc).2 with lost | asked | served | answered
    · exact absurd (of_decide_eq_true lost) kept
    · exact .inl asked
    · exact .inr (.inl (of_decide_eq_true served))
    · exact .inr (.inr answered)

/-- Two clients have sent a line each, and the second one's arrives first. -/
def overtaking : List (Event Nat) :=
  [.client 7, .client 7, .client 8, .client 8, .serverReceive 1, .server, .server, .clientReceive 0]

def greets (a : Nat) (_ : Nat) : Text := if a = 8 then "hi".toList else "hello".toList

theorem rounds_private_overtaking : ∃ (s : System Nat) (text : Text),
    Reach (System.step (fun _ => []) greets fun _ => "ok".toList) anyStep .start s ∧
    (s.clients 8).printed[0]? = some text ∧ text = padded "ok".toList ∧
    ∃ j : Nat, s.heard[j]? = some (8, padded "hi".toList) := by
  obtain ⟨s, ran⟩ : ∃ s, run (System.step (fun _ => []) greets fun _ => "ok".toList) .start
      overtaking = some s := ⟨_, rfl⟩
  have cFits (a i : Nat) : Fits (greets a i) := by
    unfold greets
    split <;> decide
  have sFits : ∀ _ : Nat, Fits "ok".toList := fun _ => by decide
  have reached := reach_of_run ran
  obtain ⟨text, printed⟩ : ∃ text, (s.clients 8).printed[0]? = some text := by
    cases ran
    exact ⟨_, rfl⟩
  obtain ⟨j, _, heard, shown⟩ := (rounds_private cFits sFits reached 8).1 0 text printed
  exact ⟨s, text, reached, printed, shown, j, heard⟩

end DatagramClients
