import Mathlib.Logic.Function.Basic
import NetworksLab.Network
import NetworksLab.Segments
import NetworksLab.UdpBase

/-! `udpBaseServer_2` with any number of `udpBaseClient_2`s, on a network that may lose,
repeat and reorder datagrams. The first "bye" that arrives ends the server for all. -/
namespace UdpBase
open JavaText Transition

inductive ClientPc
  | readLine
  | send
  | test
  | done
  | failed
  deriving DecidableEq

/-- `main` of a client; `reads` counts the calls of `nextLine`, `sent` holds the lines sent. -/
structure Client where
  pc : ClientPc
  inp : JString
  reads : Nat
  sent : List JString
  deriving DecidableEq

def Client.start : Client := ⟨.readLine, [], 0, []⟩

/-- The next statement and the datagram it sends, if any. `nextLine` throws at the end
of the input, `send` on a line that is too long. -/
def Client.step (console : List JString) (c : Client) : Option (Client × Option (List UInt8)) :=
  match c.pc with
  | .readLine =>
      match console[c.reads]? with
      | none => some ({ c with pc := .failed }, none)
      | some line => some ({ c with pc := .send, inp := line, reads := c.reads + 1 }, none)
  | .send =>
      if maxPayload < (getBytes c.inp).length then some ({ c with pc := .failed }, none)
      else some ({ c with pc := .test, sent := c.sent ++ [c.inp] }, some (getBytes c.inp))
  | .test => some ({ c with pc := if c.inp = bye then .done else .readLine }, none)
  | .done | .failed => none

variable {α : Type*}

/-- `arrived` are the datagrams the server has received, `lost` is whose were lost. -/
structure System (α : Type*) where
  clients : α → Client
  server : Server
  transit : List (α × List UInt8)
  arrived : List (α × List UInt8)
  lost : List α

def System.start : System α := ⟨fun _ => .start, .start, [], [], []⟩

/-- The index is that of the datagram in transit that arrives or gets lost. -/
inductive Event (α : Type*)
  | client (a : α)
  | receive (i : Nat) (again : Bool)
  | lose (i : Nat)

def System.step [DecidableEq α] (consoles : α → List JString) (s : System α) : Event α → Option (System α)
  | .client a => ((s.clients a).step (consoles a)).map fun p => { s with
      clients := Function.update s.clients a p.1
      transit := s.transit ++ (p.2.map fun d => (a, d)).toList }
  | .receive i again =>
      match Network.arrive s.transit i again with
      | none => none
      | some (p, rest) => (s.server.step p.2).map fun u => { s with
          server := u, transit := rest, arrived := s.arrived ++ [p] }
  | .lose i => (s.transit[i]?).map fun p =>
      { s with transit := s.transit.eraseIdx i, lost := s.lost ++ [p.1] }

/-- Everything a step can do. -/
inductive System.Move [DecidableEq α] (consoles : α → List JString) (s : System α) : System α → Prop
  | client {a c out} (ran : (s.clients a).step (consoles a) = some (c, out)) :
      Move consoles s { s with
        clients := Function.update s.clients a c
        transit := s.transit ++ (out.map fun d => (a, d)).toList }
  | receive {i again p rest u} (arrives : Network.arrive s.transit i again = some (p, rest))
      (turn : s.server.step p.2 = some u) :
      Move consoles s { s with server := u, transit := rest, arrived := s.arrived ++ [p] }
  | lose {i p} (here : s.transit[i]? = some p) :
      Move consoles s { s with transit := s.transit.eraseIdx i, lost := s.lost ++ [p.1] }

/-- The units in front of the first zero, at which `data` stops. -/
def upToNul (line : JString) : JString := line.takeWhile (· ≠ 0)

/-- What the server makes of a line. -/
def decoded (line : JString) : JString := (getBytes (upToNul line)).map charOf

def shown (line : JString) : JString := literal "Client:-" ++ decoded line

def exiting : JString := literal "Client sent bye.....EXITING"

/-- The server has been told these lines: it has shown them all, and none but the last
was a "bye". -/
structure System.Told (s : System α) (heard : List (α × JString)) : Prop where
  arrived : s.arrived = heard.map fun p => (p.1, getBytes p.2)
  typed : ∀ p ∈ heard, p.2 ∈ (s.clients p.1).sent
  printed : s.server.printed =
    heard.map (fun p => shown p.2) ++ if s.server.exited then [exiting] else []
  exited : s.server.exited = true ↔ ∃ p ∈ heard, upToNul p.2 = bye
  last : ∀ p ∈ heard.dropLast, upToNul p.2 ≠ bye

/-- What a client has sent, before the lines still to come. -/
structure Client.Sent (console : List JString) (c : Client) (rest : List JString) : Prop where
  console : console = c.sent ++ rest
  fit : ∀ l ∈ c.sent, (getBytes l).length ≤ maxPayload

inductive Client.Phase (console : List JString) (c : Client) : Prop
  | readLine (rest : List JString) (pc : c.pc = .readLine) (reads : c.reads = c.sent.length)
      (sent : c.Sent console rest) (stays : bye ∉ c.sent)
  | send (rest : List JString) (pc : c.pc = .send) (reads : c.reads = c.sent.length + 1)
      (sent : c.Sent console (c.inp :: rest)) (stays : bye ∉ c.sent)
  | test (before rest : List JString) (pc : c.pc = .test) (reads : c.reads = c.sent.length)
      (sent : c.Sent console rest) (last : c.sent = before ++ [c.inp]) (stays : bye ∉ before)
  | done (before rest : List JString) (pc : c.pc = .done) (sent : c.Sent console rest)
      (last : c.sent = before ++ [bye]) (stays : bye ∉ before)
  | failed (rest : List JString) (pc : c.pc = .failed) (sent : c.Sent console rest)
      (stays : bye ∉ c.sent) (long : ∀ l ∈ rest.head?, maxPayload < (getBytes l).length)

variable {console : List JString} {consoles : α → List JString} {c d : Client}
  {out : Option (List UInt8)} {s t : System α} {a : α} {heard : List (α × JString)}
  {line : JString} {v u : Server}

/-- Only a zero is encoded with a zero. -/
theorem takeWhile_getBytes (s : JString) : (getBytes s).takeWhile (· ≠ 0) = getBytes (upToNul s) := by
  by_cases zero : 0 ∈ s
  · obtain ⟨front, rest, rfl, free⟩ := List.eq_append_cons_of_mem zero
    rw [upToNul, Segments.takeWhile_sep free, getBytes_zero,
      Segments.takeWhile_sep (getBytes_nulFree free)]
  · rw [upToNul, Segments.takeWhile_free zero, Segments.takeWhile_free (getBytes_nulFree zero)]

theorem decoded_eq_bye : decoded line = bye ↔ upToNul line = bye := by
  constructor
  · exact fun same => eq_of_decoded same byeUnits
  · intro same
    rw [decoded, same]
    exact decoded_ascii fun w mem => (byeUnits w mem).1

theorem Server.step_line (fits : (getBytes line).length ≤ maxPayload)
    (turn : v.step (getBytes line) = some u) : v.exited = false ∧
      u.printed = v.printed ++ shown line :: (if u.exited then [exiting] else []) ∧
      (u.exited = true ↔ upToNul line = bye) := by
  have read : data (received (getBytes line)) = some (decoded line) := by
    rw [data_received fits, takeWhile_getBytes]
    rfl
  rw [Server.step, Option.ite_none_left_eq_some, read, Option.map_some, Option.some.injEq] at turn
  obtain ⟨running, rfl⟩ := turn
  refine ⟨Bool.eq_false_iff.mpr running, ?_⟩
  rw [← decoded_eq_bye]
  by_cases ends : decoded line = bye <;> simp [ends, shown, exiting]

theorem clientSends_append {before : List JString} (stays : bye ∉ before) (rest : List JString) :
    clientSends (before ++ rest) = before.map getBytes ++ clientSends rest := by
  induction before with
  | nil => rfl
  | cons line before ih =>
      rw [List.mem_cons, not_or] at stays
      rw [List.cons_append, clientSends, if_neg (Ne.symm stays.1), ih stays.2, List.map_cons,
        List.cons_append]

theorem Client.Sent.concat {rest : List JString} (h : c.Sent console (c.inp :: rest))
    (fits : (getBytes c.inp).length ≤ maxPayload) (sent : d.sent = c.sent ++ [c.inp]) :
    d.Sent console rest := by
  refine ⟨?_, ?_⟩
  · rw [h.console, sent, List.append_assoc, List.singleton_append]
  · rw [sent]
    intro l mem
    rcases List.mem_append.mp mem with old | new
    · exact h.fit l old
    · rwa [List.mem_singleton.mp new]

theorem Client.Phase.step (h : c.Phase console) (step : c.step console = some (d, out)) :
    d.Phase console ∧ ∃ new, d.sent = c.sent ++ new ∧ out.toList = new.map getBytes := by
  cases h with
  | readLine rest pc reads sent stays =>
      have next : console[c.reads]? = rest.head? := by
        rw [sent.console, reads, List.getElem?_append_right (Nat.le_refl _), Nat.sub_self,
          List.head?_eq_getElem?]
      simp only [Client.step, pc, next] at step
      cases rest with
      | nil =>
          cases step
          exact ⟨.failed [] rfl ⟨sent.console, sent.fit⟩ stays nofun, [], by simp⟩
      | cons line rest =>
          cases step
          exact ⟨.send rest rfl (congrArg (· + 1) reads) ⟨sent.console, sent.fit⟩ stays, [],
            by simp⟩
  | send rest pc reads sent stays =>
      simp only [Client.step, pc] at step
      split at step
      · next long =>
          cases step
          refine ⟨.failed (c.inp :: rest) rfl ⟨sent.console, sent.fit⟩ stays ?_, [], by simp⟩
          rintro _ ⟨⟩
          exact long
      · next short =>
          cases step
          have more := sent.concat (d := { c with pc := .test, sent := c.sent ++ [c.inp] })
            (Nat.le_of_not_lt short) rfl
          exact ⟨.test c.sent rest rfl (by simp [reads]) more rfl stays, [c.inp], rfl, rfl⟩
  | test before rest pc reads sent last stays =>
      simp only [Client.step, pc, Option.some.injEq, Prod.mk.injEq] at step
      obtain ⟨rfl, rfl⟩ := step
      refine ⟨?_, [], by simp⟩
      by_cases ends : c.inp = bye
      · rw [if_pos ends]
        exact .done before rest rfl ⟨sent.console, sent.fit⟩ (ends ▸ last) stays
      · rw [if_neg ends]
        refine .readLine rest rfl reads ⟨sent.console, sent.fit⟩ ?_
        dsimp only
        rw [last, List.mem_append, List.mem_singleton, not_or]
        exact ⟨stays, Ne.symm ends⟩
  | done before rest pc | failed rest pc =>
      simp only [Client.step, pc] at step
      cases step

theorem Client.Phase.fit (h : c.Phase console) : ∀ l ∈ c.sent, (getBytes l).length ≤ maxPayload := by
  cases h with
  | readLine rest pc reads sent | send rest pc reads sent | test before rest pc reads sent
  | done before rest pc sent | failed rest pc sent => exact sent.fit

theorem System.Told.later (h : s.Told heard) (server : t.server = s.server)
    (arrived : t.arrived = s.arrived)
    (grows : ∀ a, ∀ line ∈ (s.clients a).sent, line ∈ (t.clients a).sent) : t.Told heard := by
  refine ⟨arrived ▸ h.arrived, fun p mem => grows p.1 p.2 (h.typed p mem), ?_, ?_, h.last⟩
  · rw [server]
    exact h.printed
  · rw [server]
    exact h.exited

/-- One more line, if the server has not left its loop. -/
theorem System.Told.receive (h : s.Told heard) (typed : line ∈ (s.clients a).sent)
    (fits : (getBytes line).length ≤ maxPayload) (clients : t.clients = s.clients)
    (arrived : t.arrived = s.arrived ++ [(a, getBytes line)])
    (turn : s.server.step (getBytes line) = some t.server) : t.Told (heard ++ [(a, line)]) := by
  obtain ⟨running, printed, ends⟩ := Server.step_line fits turn
  have others : ∀ p ∈ heard, upToNul p.2 ≠ bye := by
    intro p mem keyword
    rw [h.exited.mpr ⟨p, mem, keyword⟩] at running
    cases running
  refine ⟨?_, fun p mem => ?_, ?_, ?_, ?_⟩
  · rw [arrived, h.arrived, List.map_append]
    rfl
  · rw [clients]
    rcases List.mem_append.mp mem with old | new
    · exact h.typed p old
    · rwa [List.mem_singleton.mp new]
  · rw [printed, h.printed, running, List.map_append]
    simp
  · rw [ends]
    constructor
    · exact fun keyword => ⟨(a, line), by simp, keyword⟩
    · rintro ⟨p, mem, keyword⟩
      rcases List.mem_append.mp mem with old | new
      · exact absurd keyword (others p old)
      · rwa [List.mem_singleton.mp new] at keyword
  · rw [List.dropLast_concat]
    exact others

variable [DecidableEq α]

theorem System.move {e : Event α} (step : s.step consoles e = some t) : System.Move consoles s t := by
  cases e with
  | client a =>
      obtain ⟨p, ran, rfl⟩ := Option.map_eq_some_iff.mp step
      exact .client ran
  | receive i again =>
      simp only [System.step] at step
      split at step
      · cases step
      · next arrives =>
          obtain ⟨u, turn, rfl⟩ := Option.map_eq_some_iff.mp step
          exact .receive arrives turn
  | lose i =>
      obtain ⟨p, here, rfl⟩ := Option.map_eq_some_iff.mp step
      exact .lose here

/-- What is under way has been sent, and what has been sent is under way, received or lost. -/
structure System.Sound (consoles : α → List JString) (s : System α) : Prop where
  clients : ∀ a, (s.clients a).Phase (consoles a)
  transit : ∀ p ∈ s.transit, ∃ line ∈ (s.clients p.1).sent, p.2 = getBytes line
  told : ∃ heard, s.Told heard
  kept : ∀ a, a ∉ s.lost → ∀ line ∈ (s.clients a).sent,
    (a, getBytes line) ∈ s.transit ∨ (a, getBytes line) ∈ s.arrived

theorem System.Sound.move (h : s.Sound consoles) (move : s.Move consoles t) : t.Sound consoles := by
  cases move with
  | @client a c out ran =>
      obtain ⟨phase, new, more, sends⟩ := (h.clients a).step ran
      have added : (out.map fun d => (a, d)).toList = new.map fun line => (a, getBytes line) := by
        rw [Option.toList_map, sends, List.map_map]
        rfl
      have sent_iff {b : α} {line : JString} : line ∈ (Function.update s.clients a c b).sent ↔
          line ∈ (s.clients b).sent ∨ b = a ∧ line ∈ new := by
        by_cases own : b = a
        · subst own
          simp [more]
        · simp [own]
      refine ⟨?_, fun p mem => ?_, ?_, fun b unharmed line mem => ?_⟩
      · exact (Function.forall_update_iff s.clients fun b e => e.Phase (consoles b)).mpr
          ⟨phase, fun b _ => h.clients b⟩
      · rcases List.mem_append.mp mem with old | sending
        · obtain ⟨line, sent, same⟩ := h.transit p old
          exact ⟨line, sent_iff.mpr (.inl sent), same⟩
        · rw [added] at sending
          obtain ⟨line, now, rfl⟩ := List.mem_map.mp sending
          exact ⟨line, sent_iff.mpr (.inr ⟨rfl, now⟩), rfl⟩
      · obtain ⟨heard, told⟩ := h.told
        exact ⟨heard, told.later rfl rfl fun b line sent => sent_iff.mpr (.inl sent)⟩
      · rcases sent_iff.mp mem with before | ⟨rfl, now⟩
        · exact (h.kept b unharmed line before).imp_left fun pending => List.mem_append_left _ pending
        · rw [added]
          exact .inl (List.mem_append_right _ (List.mem_map.mpr ⟨line, now, rfl⟩))
  | @receive i again p rest u arrives turn =>
      obtain ⟨line, sent, same⟩ := h.transit p (Network.mem_of_arrive arrives)
      have fits := (h.clients p.1).fit line sent
      refine ⟨h.clients, fun q mem => h.transit q (Network.subset_of_arrive arrives mem), ?_,
        fun b unharmed text mem => ?_⟩
      · obtain ⟨heard, told⟩ := h.told
        rw [same] at turn
        exact ⟨_, told.receive sent fits rfl (by simp [← same]) turn⟩
      · rcases h.kept b unharmed text mem with pending | old
        · rcases Network.mem_or_of_arrive arrives pending with now | still
          · exact .inr (by simp [now])
          · exact .inl still
        · exact .inr (List.mem_append_left _ old)
  | @lose i p here =>
      obtain ⟨heard, told⟩ := h.told
      refine ⟨h.clients, fun q mem => h.transit q (List.mem_of_mem_eraseIdx mem),
        ⟨heard, told.later rfl rfl fun _ _ => id⟩, fun b unharmed text mem => ?_⟩
      rw [List.mem_append, not_or] at unharmed
      refine (h.kept b unharmed.1 text mem).imp_left fun pending => ?_
      rcases Network.mem_or_eraseIdx here pending with gone | still
      · exact absurd (by simp [← gone]) unharmed.2
      · exact still

theorem System.sound (reached : Reach (System.step consoles) anyStep .start s) : s.Sound consoles := by
  refine reached.invariant (I := System.Sound consoles) ⟨fun a => ?_, nofun, ⟨[], ?_⟩, nofun⟩
    fun _ _ _ h _ step => h.move (System.move step)
  · exact .readLine (consoles a) rfl rfl ⟨rfl, nofun⟩ List.not_mem_nil
  · exact ⟨rfl, nofun, rfl, by simp [System.start, Server.start], nofun⟩

/-- What a client has sent, as its loop alone would send it. -/
theorem Client.Phase.sends (h : c.Phase console) :
    (c.sent.map getBytes <+: clientSends console) ∧
      (c.pc = .done → bye ∈ c.sent ∧ clientSends console = c.sent.map getBytes) ∧
      (c.pc = .failed → ∀ l ∈ console[c.sent.length]?, maxPayload < (getBytes l).length) := by
  have front {rest : List JString} (sent : c.Sent console rest) (stays : bye ∉ c.sent) :
      c.sent.map getBytes <+: clientSends console := by
    rw [sent.console, clientSends_append stays]
    exact List.prefix_append ..
  cases h with
  | readLine rest pc reads sent stays | send rest pc reads sent stays =>
      exact ⟨front sent stays, by simp [pc], by simp [pc]⟩
  | test before rest pc reads sent last stays =>
      refine ⟨?_, by simp [pc], by simp [pc]⟩
      rw [sent.console, last, List.append_assoc, clientSends_append stays, List.map_append]
      exact (List.prefix_append_right_inj _).mpr ⟨_, rfl⟩
  | done before rest pc sent last stays =>
      have all : clientSends console = c.sent.map getBytes := by
        rw [sent.console, last, List.append_assoc, clientSends_append stays, List.map_append]
        simp [clientSends]
      exact ⟨all ▸ List.prefix_refl _, fun _ => ⟨by simp [last], all⟩, by simp [pc]⟩
  | failed rest pc sent stays long =>
      refine ⟨front sent stays, by simp [pc], fun _ => ?_⟩
      rw [sent.console, List.getElem?_append_right (Nat.le_refl _), Nat.sub_self,
        ← List.head?_eq_getElem?]
      exact long

theorem upToNul_bye : upToNul bye = bye := by decide

/-- The server shows all it receives and leaves at the first "bye", whoever it is from;
what a client sends depends on its own lines alone. Where a client has left with none of
its datagrams lost or under way, the server has left. -/
theorem one_bye_for_all (reached : Reach (System.step consoles) anyStep .start s) :
    (∃ heard, s.Told heard) ∧ ∀ a,
      ((s.clients a).sent.map getBytes <+: clientSends (consoles a)) ∧
      ((s.clients a).pc = .failed →
        ∀ l ∈ (consoles a)[(s.clients a).sent.length]?, maxPayload < (getBytes l).length) ∧
      ((s.clients a).pc = .done → clientSends (consoles a) = (s.clients a).sent.map getBytes ∧
        (a ∉ s.lost → (∀ p ∈ s.transit, p.1 ≠ a) → s.server.exited = true)) := by
  have sound := System.sound reached
  refine ⟨sound.told, fun a => ?_⟩
  obtain ⟨own, done, failed⟩ := (sound.clients a).sends
  refine ⟨own, failed, fun left => ?_⟩
  obtain ⟨keyword, all⟩ := done left
  refine ⟨all, fun unharmed idle => ?_⟩
  obtain ⟨heard, told⟩ := sound.told
  rcases sound.kept a unharmed bye keyword with pending | arrived
  · exact absurd rfl (idle _ pending)
  · rw [told.arrived] at arrived
    obtain ⟨q, mem, same⟩ := List.mem_map.mp arrived
    have bytes : getBytes (upToNul q.2) = getBytes (upToNul bye) := by
      rw [← takeWhile_getBytes, (Prod.mk.inj same).2, takeWhile_getBytes]
    have text : decoded q.2 = decoded bye := congrArg (List.map charOf) bytes
    rw [decoded_eq_bye.mpr upToNul_bye] at text
    exact told.exited.mpr ⟨q, mem, decoded_eq_bye.mp text⟩

def twoConsoles : Bool → List JString
  | false => [literal "hi", bye]
  | true => [bye]

/-- The one says "hi", the other "bye"; the datagrams overtake each other. -/
def byeFirst : List (Event Bool) :=
  [.client false, .client false, .client true, .client true, .client true, .receive 1 false]

theorem one_bye_for_all_byeFirst : ∃ s, run (System.step twoConsoles) .start byeFirst = some s ∧
    s.server.exited = true ∧ s.server.printed = [shown bye, exiting] ∧ (s.clients false).pc = .test := by
  obtain ⟨s, ran⟩ : ∃ s, run (System.step twoConsoles) .start byeFirst = some s := ⟨_, rfl⟩
  obtain ⟨left, kept, idle, goesOn, printed⟩ : (s.clients true).pc = .done ∧ true ∉ s.lost ∧
      (∀ p ∈ s.transit, p.1 ≠ true) ∧ (s.clients false).pc = .test ∧
      s.server.printed = [shown bye, exiting] := by
    obtain rfl := Option.some.inj ran
    exact ⟨rfl, by decide, by decide, rfl, by decide⟩
  obtain ⟨_, each⟩ := one_bye_for_all (reach_of_run ran)
  exact ⟨s, ran, ((each true).2.2 left).2 kept idle, printed, goesOn⟩

end UdpBase
