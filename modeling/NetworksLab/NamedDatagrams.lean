import NetworksLab.DatagramClients

/-! The chat in which each `UDPClient` puts its name before its lines and `UDPServer`
only listens, on a network that may lose, repeat and reorder datagrams. "logout"
is looked for behind the name, and in the whole array. -/
namespace NamedChat
open DatagramChat DatagramClients Transition

/-- The longest payload of a UDP datagram; `send` throws an exception on more. -/
def maxPayload : Nat := 65507

/-- A string or `null` as an operand of `+`. -/
def operand (text : Option Text) : Text := text.getD "null".toList

/-- `name + ": " + sentence`. -/
def joined (name sentence : Option Text) : Text := operand name ++ ": ".toList ++ operand sentence

inductive ClientPc
  | readName
  | readLine
  | send
  | test
  | done
  | failed
  deriving DecidableEq

/-- `reads` counts the calls of `readLine`, `sent` holds the sentences sent. -/
structure Client where
  pc : ClientPc
  name : Option Text
  sentence : Text
  reads : Nat
  sent : List Text
  deriving DecidableEq

def Client.start : Client := ⟨.readName, none, [], 0, []⟩

/-- The next statement of a client, and the datagram it sends if any. At the end of
the console `readLine` gives `null`. -/
def Client.step (console : List Text) (c : Client) : Option (Client × Option DatagramChat.Bytes) :=
  match c.pc with
  | .readName => some
      ({ c with pc := .readLine, name := console[c.reads]?, reads := c.reads + 1 }, none)
  | .readLine => some
      ({ c with pc := .send, sentence := joined c.name console[c.reads]?, reads := c.reads + 1 }, none)
  | .send =>
      if maxPayload < (getBytes c.sentence).length then some ({ c with pc := .failed }, none)
      else some ({ c with pc := .test, sent := c.sent ++ [c.sentence] }, some (getBytes c.sentence))
  | .test => some ({ c with pc := if c.sentence = logout then .done else .readLine }, none)
  | .done | .failed => none

inductive ServerPc
  | receive
  | test
  | done
  deriving DecidableEq

variable {α : Type*}

/-- `printed` are the strings the server has printed, each with the client it is from;
`lost` is whose datagrams were lost. -/
structure System (α : Type*) where
  clients : α → Client
  pc : ServerPc
  sentence : Text
  printed : List (α × Text)
  transit : List (α × DatagramChat.Bytes)
  lost : List α

def System.start : System α := ⟨fun _ => .start, .receive, [], [], [], []⟩

/-- The index is that of the datagram in transit that arrives or gets lost. -/
inductive Event (α : Type*)
  | client (a : α)
  | receive (i : Nat) (again : Bool)
  | test
  | lose (i : Nat)

/-- The string built from the array into which a sentence has been received. -/
def received (malformed : DatagramChat.Bytes → Text) (sentence : Text) : Text :=
  newString malformed (getData (getBytes sentence))

variable [DecidableEq α] (malformed : DatagramChat.Bytes → Text)

def System.step (consoles : α → List Text) (s : System α) : Event α → Option (System α)
  | .client a => ((s.clients a).step (consoles a)).map fun p => { s with
      clients := Function.update s.clients a p.1
      transit := s.transit ++ (p.2.map fun d => (a, d)).toList }
  | .receive i again =>
      match Network.arrive s.transit i again with
      | none => none
      | some ((a, d), rest) =>
          if s.pc = .receive then
            let text := newString malformed (getData d)
            some { s with
              pc := .test, sentence := text, printed := s.printed ++ [(a, text)], transit := rest }
          else none
  | .test =>
      if s.pc = .test then some { s with pc := if s.sentence = logout then .done else .receive }
      else none
  | .lose i => (s.transit[i]?).map fun p =>
      { s with transit := s.transit.eraseIdx i, lost := s.lost ++ [p.1] }

/-- Everything a step can do. -/
inductive System.Move (consoles : α → List Text) (s : System α) : Event α → System α → Prop
  | client {a c out} (ran : (s.clients a).step (consoles a) = some (c, out)) :
      Move consoles s (.client a) { s with
        clients := Function.update s.clients a c
        transit := s.transit ++ (out.map fun d => (a, d)).toList }
  | receive {i again a d rest} (arrived : Network.arrive s.transit i again = some ((a, d), rest)) :
      Move consoles s (.receive i again) { s with
        pc := .test
        sentence := newString malformed (getData d)
        printed := s.printed ++ [(a, newString malformed (getData d))]
        transit := rest }
  | test (pc : s.pc = .test) : Move consoles s .test
      { s with pc := if s.sentence = logout then .done else .receive }
  | lose {i p} (here : s.transit[i]? = some p) : Move consoles s (.lose i)
      { s with transit := s.transit.eraseIdx i, lost := s.lost ++ [p.1] }

/-- The `k`-th sentence of a client. -/
def sentence (console : List Text) (k : Nat) : Text := joined console[0]? console[k + 1]?

theorem joined_ne_logout (name text : Option Text) : joined name text ≠ logout := by
  intro same
  have colon : ':' ∈ joined name text := by simp [joined]
  rw [same] at colon
  revert colon
  decide

/-- What a client has sent before its `n`-th sentence. -/
structure Client.Sent (console : List Text) (c : Client) (n : Nat) : Prop where
  name : c.name = console[0]?
  sent : c.sent = (List.range n).map (NamedChat.sentence console)

inductive Client.Phase (console : List Text) (c : Client) : Prop
  | readName (pc : c.pc = .readName) (reads : c.reads = 0) (sent : c.sent = [])
  | readLine (n : Nat) (pc : c.pc = .readLine) (reads : c.reads = n + 1) (sent : c.Sent console n)
  | send (n : Nat) (pc : c.pc = .send) (reads : c.reads = n + 2) (sent : c.Sent console n)
      (typed : c.sentence = NamedChat.sentence console n)
  | test (n : Nat) (pc : c.pc = .test) (reads : c.reads = n + 2) (sent : c.Sent console (n + 1))
      (typed : c.sentence = NamedChat.sentence console n)
  | failed (n : Nat) (pc : c.pc = .failed) (sent : c.Sent console n)
      (typed : c.sentence = NamedChat.sentence console n)
      (long : maxPayload < (getBytes c.sentence).length)

variable {malformed} {console : List Text} {consoles : α → List Text} {c d : Client}
  {out : Option DatagramChat.Bytes} {s t : System α} {a : α} {i : Nat}

theorem Client.Phase.step (h : c.Phase console) (step : c.step console = some (d, out)) :
    d.Phase console ∧ (out = none ∧ d.sent = c.sent ∨
      out = some (getBytes c.sentence) ∧ d.sent = c.sent ++ [c.sentence]) := by
  cases h with
  | readName pc reads sent =>
      simp only [Client.step, pc, Option.some.injEq, Prod.mk.injEq] at step
      obtain ⟨rfl, rfl⟩ := step
      refine ⟨.readLine 0 rfl (congrArg (· + 1) reads) ⟨?_, sent⟩, .inl ⟨rfl, rfl⟩⟩
      rw [reads]
  | readLine n pc reads sent =>
      simp only [Client.step, pc, Option.some.injEq, Prod.mk.injEq] at step
      obtain ⟨rfl, rfl⟩ := step
      refine ⟨.send n rfl (congrArg (· + 1) reads) ⟨sent.name, sent.sent⟩ ?_, .inl ⟨rfl, rfl⟩⟩
      rw [reads, sent.name]
      rfl
  | send n pc reads sent typed =>
      simp only [Client.step, pc] at step
      split at step
      · next long =>
          simp only [Option.some.injEq, Prod.mk.injEq] at step
          obtain ⟨rfl, rfl⟩ := step
          exact ⟨.failed n rfl ⟨sent.name, sent.sent⟩ typed long, .inl ⟨rfl, rfl⟩⟩
      · simp only [Option.some.injEq, Prod.mk.injEq] at step
        obtain ⟨rfl, rfl⟩ := step
        refine ⟨.test n rfl reads ⟨sent.name, ?_⟩ typed, .inr ⟨rfl, rfl⟩⟩
        rw [Firsts.map_range_succ, ← sent.sent, ← typed]
  | test n pc reads sent typed =>
      have stays : c.sentence ≠ logout := by
        rw [typed, NamedChat.sentence]
        exact joined_ne_logout _ _
      simp only [Client.step, pc, if_neg stays, Option.some.injEq, Prod.mk.injEq] at step
      obtain ⟨rfl, rfl⟩ := step
      exact ⟨.readLine (n + 1) rfl reads ⟨sent.name, sent.sent⟩, .inl ⟨rfl, rfl⟩⟩
  | failed n pc =>
      simp only [Client.step, pc] at step
      cases step

/-- At the end of its console too. -/
theorem Client.Phase.goesOn (h : c.Phase console) (sends : c.pc ≠ .failed) :
    ∃ p, c.step console = some p := by
  cases h with
  | readName pc | readLine n pc | test n pc =>
      simp only [Client.step, pc]
      exact ⟨_, rfl⟩
  | send n pc =>
      simp only [Client.step, pc]
      split <;> exact ⟨_, rfl⟩
  | failed n pc => exact absurd pc sends

/-- The array is too long for "logout", as long as it holds whole characters. -/
theorem received_eq_logout {text : Text} (same : received malformed text = logout) :
    ¬ Fits text ∧ malformed (getData (getBytes text)) = logout := by
  refine ⟨fun fits => ?_, ?_⟩
  · rw [received, newString_getData fits] at same
    exact padded_ne_logout fits same
  · rw [received, newString] at same
    cases decoded : (getData (getBytes text)).toByteArray.utf8Decode? with
    | none =>
        rw [decoded] at same
        exact same
    | some chars =>
        obtain ⟨l, encoded⟩ := ByteArray.isSome_utf8Decode?_iff.mp (by rw [decoded]; rfl)
        rw [encoded, List.utf8Decode?_utf8Encode] at same
        obtain rfl : l = logout := same
        have size := congrArg ByteArray.size encoded
        rw [List.size_toByteArray, getData_length] at size
        exact absurd size (by decide)

theorem System.move {e : Event α} (step : s.step malformed consoles e = some t) :
    System.Move malformed consoles s e t := by
  cases e with
  | client a =>
      obtain ⟨p, ran, rfl⟩ := Option.map_eq_some_iff.mp step
      exact .client ran
  | receive i again =>
      simp only [System.step] at step
      split at step
      · cases step
      · next arrived =>
          rw [Option.ite_none_right_eq_some] at step
          exact Option.some.inj step.2 ▸ .receive arrived
  | test =>
      simp only [System.step, Option.ite_none_right_eq_some] at step
      exact Option.some.inj step.2 ▸ .test step.1
  | lose i =>
      obtain ⟨p, here, rfl⟩ := Option.map_eq_some_iff.mp step
      exact .lose here

/-- What is under way and what has been printed has been sent. -/
structure System.Genuine (malformed : DatagramChat.Bytes → Text) (consoles : α → List Text)
    (s : System α) : Prop where
  clients : ∀ a, (s.clients a).Phase (consoles a)
  transit : ∀ p ∈ s.transit, ∃ text ∈ (s.clients p.1).sent, p.2 = getBytes text
  printed : ∀ p ∈ s.printed, ∃ text ∈ (s.clients p.1).sent, p.2 = received malformed text
  server : (s.pc = .test → ∃ a, ∃ text ∈ (s.clients a).sent, s.sentence = received malformed text) ∧
    (s.pc = .done → ∃ a, ∃ text ∈ (s.clients a).sent, received malformed text = logout)

theorem System.Genuine.move (h : s.Genuine malformed consoles) {e : Event α}
    (move : s.Move malformed consoles e t) : t.Genuine malformed consoles := by
  cases move with
  | @client a c out ran =>
      obtain ⟨phase, sends⟩ := (h.clients a).step ran
      have grows : ∀ b text, text ∈ (s.clients b).sent → text ∈ (Function.update s.clients a c b).sent := by
        intro b text mem
        by_cases own : b = a
        · subst own
          rw [Function.update_self]
          rcases sends with ⟨_, same⟩ | ⟨_, more⟩
          · exact same ▸ mem
          · exact more ▸ List.mem_append_left _ mem
        · rwa [Function.update_of_ne own]
      refine ⟨?_, fun p mem => ?_, fun p mem => ?_, fun pc => ?_, fun pc => ?_⟩
      · exact (Function.forall_update_iff s.clients fun b e => e.Phase (consoles b)).mpr
          ⟨phase, fun b _ => h.clients b⟩
      · rcases List.mem_append.mp mem with old | new
        · obtain ⟨text, sent, same⟩ := h.transit p old
          exact ⟨text, grows p.1 text sent, same⟩
        · rcases sends with ⟨rfl, _⟩ | ⟨rfl, more⟩
          · cases new
          · obtain rfl := List.mem_singleton.mp new
            exact ⟨_, by simp [more], rfl⟩
      · obtain ⟨text, sent, same⟩ := h.printed p mem
        exact ⟨text, grows p.1 text sent, same⟩
      · obtain ⟨b, text, sent, same⟩ := h.server.1 pc
        exact ⟨b, text, grows b text sent, same⟩
      · obtain ⟨b, text, sent, same⟩ := h.server.2 pc
        exact ⟨b, text, grows b text sent, same⟩
  | @receive i again a d rest arrived =>
      obtain ⟨text, sent, same⟩ := h.transit (a, d) (Network.mem_of_arrive arrived)
      have string : newString malformed (getData d) = received malformed text :=
        congrArg (fun d => newString malformed (getData d)) same
      refine ⟨h.clients, fun p mem => h.transit p (Network.subset_of_arrive arrived mem),
        fun p mem => ?_, fun _ => ⟨a, text, sent, string⟩, nofun⟩
      rcases List.mem_append.mp mem with old | new
      · exact h.printed p old
      · obtain rfl := List.mem_singleton.mp new
        exact ⟨text, sent, string⟩
  | test pc =>
      obtain ⟨a, text, sent, string⟩ := h.server.1 pc
      refine ⟨h.clients, h.transit, h.printed, fun pc' => ?_, fun pc' => ⟨a, text, sent, ?_⟩⟩
      · exact absurd pc' (by dsimp only; split <;> nofun)
      · rw [← string]
        by_contra other
        simp [if_neg other] at pc'
  | lose here =>
      exact ⟨h.clients, fun p mem => h.transit p (List.mem_of_mem_eraseIdx mem), h.printed, h.server⟩

theorem System.genuine (reached : Reach (System.step malformed consoles) anyStep .start s) :
    s.Genuine malformed consoles :=
  reached.invariant (I := System.Genuine malformed consoles)
    ⟨fun _ => .readName rfl rfl rfl, nofun, nofun, nofun, nofun⟩
    fun _ _ _ h _ step => h.move (System.move step)

theorem Client.Phase.sent (h : c.Phase console) :
    c.sent = (List.range c.sent.length).map (NamedChat.sentence console) := by
  have first {n : Nat} (sent : c.Sent console n) :
      c.sent = (List.range c.sent.length).map (NamedChat.sentence console) := by
    rw [sent.sent, List.length_map, List.length_range]
  cases h with
  | readName pc reads sent => rw [sent]; rfl
  | readLine n pc reads sent | send n pc reads sent | test n pc reads sent | failed n pc sent => exact first sent

theorem Client.Phase.getElem_sent (h : c.Phase console) {text : Text} (mem : text ∈ c.sent) :
    ∃ k < c.sent.length, text = NamedChat.sentence console k := by
  rw [h.sent] at mem
  obtain ⟨k, within, rfl⟩ := List.mem_map.mp mem
  exact ⟨k, List.mem_range.mp within, rfl⟩

/-- Nobody is ever logged out. A client goes on past the end of its console, and ends on a
datagram that is too long at most; the server ends only if the bytes of a sentence cut
inside a character make "logout". All that is printed are strings from the sentences. -/
theorem never_logged_out (reached : Reach (System.step malformed consoles) anyStep .start s) :
    (∀ a, (s.clients a).pc ≠ .done ∧
      ((s.clients a).pc = .failed → maxPayload < (getBytes (s.clients a).sentence).length) ∧
      ((s.clients a).pc ≠ .failed → ∃ t, s.step malformed consoles (.client a) = some t)) ∧
    (s.pc = .done → ∃ a, ∃ text ∈ (s.clients a).sent,
      ¬ Fits text ∧ malformed (getData (getBytes text)) = logout) ∧
    ∀ p ∈ s.printed, ∃ k < (s.clients p.1).sent.length,
      p.2 = received malformed (sentence (consoles p.1) k) := by
  have genuine := System.genuine reached
  refine ⟨fun a => ⟨fun pc => ?_, fun pc => ?_, fun sends => ?_⟩, fun pc => ?_, fun p mem => ?_⟩
  · cases genuine.clients a with
    | readName here | readLine _ here | send _ here | test _ here | failed _ here => cases pc.symm.trans here
  · cases genuine.clients a with
    | readName here | readLine _ here | send _ here | test _ here => cases pc.symm.trans here
    | failed _ _ _ _ long => exact long
  · obtain ⟨p, ran⟩ := (genuine.clients a).goesOn sends
    rw [System.step, ran]
    exact ⟨_, rfl⟩
  · obtain ⟨a, text, sent, same⟩ := genuine.server.2 pc
    exact ⟨a, text, sent, received_eq_logout same⟩
  · obtain ⟨text, sent, same⟩ := genuine.printed p mem
    obtain ⟨k, within, rfl⟩ := (genuine.clients p.1).getElem_sent sent
    exact ⟨k, within, same⟩

/-- A console that ends after the name, and one with a line to log out. -/
def twoConsoles : Bool → List Text
  | false => ["ann".toList, logout]
  | true => ["bob".toList]

/-- Both send; the first one's datagram is lost, the other one arrives. -/
def oneArrives : List (Event Bool) :=
  [.client true, .client true, .client true, .client false, .client false, .client false, .lose 1,
    .receive 0 false]

theorem never_logged_out_oneArrives : ∃ s,
    run (System.step (fun _ => []) twoConsoles) .start oneArrives = some s ∧
    (s.clients false).sentence = "ann: logout".toList ∧ (s.clients false).pc ≠ .done ∧
    ∃ t, s.step (fun _ => []) twoConsoles (.client false) = some t := by
  obtain ⟨s, ran⟩ : ∃ s, run (System.step (fun _ => []) twoConsoles) .start oneArrives = some s :=
    ⟨_, rfl⟩
  obtain ⟨sentence, sends⟩ : (s.clients false).sentence = "ann: logout".toList ∧
      (s.clients false).pc = .test := by
    obtain rfl := Option.some.inj ran
    exact ⟨by decide, rfl⟩
  obtain ⟨goesOn, _⟩ := never_logged_out (reach_of_run ran)
  obtain ⟨stays, _, next⟩ := goesOn false
  exact ⟨s, ran, sentence, stays, next (by rw [sends]; decide)⟩

/-- No datagram arrives twice or overtakes one from the same client. -/
def InOrder (s : System α) : Event α → Prop
  | .receive i again => again = false ∧ Network.First (·.1) s.transit i
  | _ => True

instance (s : System α) (e : Event α) : Decidable (InOrder s e) := by
  cases e <;> unfold InOrder <;> infer_instance

/-- The strings printed for `a`, and those that its datagrams in transit will give. -/
def System.arriving (malformed : DatagramChat.Bytes → Text) (s : System α) (a : α) : List Text :=
  about a s.printed ++ (about a s.transit).map fun d => newString malformed (getData d)

/-- Its sentences but for the lost ones, in the order in which they were sent. -/
structure System.Delivers (malformed : DatagramChat.Bytes → Text) (s : System α) (a : α) : Prop where
  sublist : (s.arriving malformed a).Sublist ((s.clients a).sent.map (received malformed))
  all : a ∉ s.lost → s.arriving malformed a = (s.clients a).sent.map (received malformed)

theorem System.Delivers.same (h : s.Delivers malformed a) (sent : (t.clients a).sent = (s.clients a).sent)
    (arriving : t.arriving malformed a = s.arriving malformed a) (lost : t.lost = s.lost) :
    t.Delivers malformed a := by
  refine ⟨?_, fun kept => ?_⟩
  · rw [arriving, sent]
    exact h.sublist
  · rw [arriving, sent]
    exact h.all (lost ▸ kept)

theorem System.Delivers.sends (h : s.Delivers malformed a) {text : Text}
    (sent : (t.clients a).sent = (s.clients a).sent ++ [text])
    (arriving : t.arriving malformed a = s.arriving malformed a ++ [received malformed text])
    (lost : t.lost = s.lost) : t.Delivers malformed a := by
  refine ⟨?_, fun kept => ?_⟩
  · rw [arriving, sent, List.map_append]
    exact h.sublist.append (List.Sublist.refl _)
  · rw [arriving, sent, List.map_append, h.all (lost ▸ kept)]
    rfl

theorem about_arrive {b : α} {d : DatagramChat.Bytes} {rest : List (α × DatagramChat.Bytes)}
    (first : Network.First (·.1) s.transit i)
    (arrived : Network.arrive s.transit i false = some ((b, d), rest)) (a : α) :
    about a s.transit = (if b = a then [d] else []) ++ about a rest := by
  rw [about, Network.filter_of_arrive first arrived a, List.map_append]
  split <;> rfl

theorem System.Delivers.move (h : s.Delivers malformed a) (genuine : s.Genuine malformed consoles)
    {e : Event α} (inOrder : InOrder s e) (move : s.Move malformed consoles e t) :
    t.Delivers malformed a := by
  cases move with
  | @client b c out ran =>
      by_cases own : a = b
      · subst own
        have client : Function.update s.clients a c a = c := Function.update_self ..
        rcases ((genuine.clients a).step ran).2 with ⟨rfl, sent⟩ | ⟨rfl, sent⟩
        · refine h.same ((congrArg Client.sent client).trans sent) ?_ rfl
          simp [arriving]
        · refine h.sends ((congrArg Client.sent client).trans sent) ?_ rfl
          simp [arriving, about_concat, received]
      · have client : Function.update s.clients b c a = s.clients a := Function.update_of_ne own ..
        refine h.same (congrArg Client.sent client) ?_ rfl
        cases out with
        | none => simp [arriving]
        | some d => simp [arriving, about_concat, Ne.symm own]
  | @receive i again b d rest arrived =>
      obtain ⟨rfl, first⟩ := inOrder
      refine h.same rfl ?_ rfl
      have transit := about_arrive first arrived a
      simp only [arriving, about_concat, transit]
      split <;> simp
  | test => exact h.same rfl rfl rfl
  | @lose i p here =>
      obtain ⟨ahead, behind, whole, rest⟩ := about_eraseIdx (x := p.2) here a
      refine ⟨List.Sublist.trans ?_ h.sublist, fun kept => ?_⟩
      · simp only [arriving, whole, rest]
        exact (((List.sublist_append_left ahead _).append_right behind).map _).append_left _
      · have other : p.1 ≠ a := fun same => kept (by simp [same])
        have unharmed : a ∉ s.lost := fun old => kept (List.mem_append_left _ old)
        rw [← h.all unharmed]
        simp [arriving, whole, rest, other]

/-- On a network that keeps each client's datagrams in order and repeats none, the server
prints the sentences of each client in their order, all of them but the lost ones. -/
theorem printed_in_order (reached : Reach (System.step malformed consoles) InOrder .start s) (a : α) :
    (about a s.printed).Sublist ((List.range (s.clients a).sent.length).map fun k =>
      received malformed (sentence (consoles a) k)) ∧
    (a ∉ s.lost → about a s.transit = [] →
      about a s.printed = (List.range (s.clients a).sent.length).map fun k =>
        received malformed (sentence (consoles a) k)) := by
  have both : s.Genuine malformed consoles ∧ s.Delivers malformed a := by
    refine reached.invariant
      (I := fun s => s.Genuine malformed consoles ∧ s.Delivers malformed a) ⟨System.genuine .refl, ?_⟩ ?_
    · exact ⟨List.Sublist.refl _, fun _ => rfl⟩
    · rintro t e u ⟨genuine, delivers⟩ inOrder step
      exact ⟨genuine.move (System.move step), delivers.move genuine inOrder (System.move step)⟩
  obtain ⟨genuine, delivers⟩ := both
  have sentences : (s.clients a).sent.map (received malformed) =
      (List.range (s.clients a).sent.length).map fun k => received malformed (sentence (consoles a) k) := by
    conv_lhs => rw [(genuine.clients a).sent, List.map_map]
    rfl
  rw [← sentences]
  refine ⟨(List.sublist_append_left _ _).trans delivers.sublist, fun kept idle => ?_⟩
  rw [← delivers.all kept, System.arriving, idle]
  exact (List.append_nil _).symm

theorem printed_in_order_oneArrives : ∃ s,
    run (fun s e => if InOrder s e then System.step (fun _ => []) twoConsoles s e else none) .start
      oneArrives = some s ∧
    about true s.printed = [padded "bob: null".toList] := by
  obtain ⟨s, ran⟩ : ∃ s, run (fun s e => if InOrder s e then
      System.step (fun _ => []) twoConsoles s e else none) .start oneArrives = some s := ⟨_, rfl⟩
  obtain ⟨kept, idle, count⟩ : true ∉ s.lost ∧ about true s.transit = [] ∧
      (s.clients true).sent.length = 1 := by
    obtain rfl := Option.some.inj ran
    exact ⟨by decide, rfl, rfl⟩
  refine ⟨s, ran, ((printed_in_order (reach_of_guarded ran) true).2 kept idle).trans ?_⟩
  rw [count]
  have fits : Fits "bob: null".toList := by decide
  exact congrArg (fun text => [text]) (newString_getData fits)

end NamedChat
