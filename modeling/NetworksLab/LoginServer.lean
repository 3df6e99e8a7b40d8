import NetworksLab.LoginHandler
import NetworksLab.Slots

/-! The login server: `main` and the threads of the handlers in `Server.ar`,
under the messages and disconnections of any number of clients. What a client
sends before its handler is in `ar` counts as sent just after: nobody reads it
earlier. -/
namespace Login
open JavaText Transition

/-- The call `main` makes next. -/
inductive MainPc
  | accept
  | add
  | start
  deriving DecidableEq

structure Server where
  main : MainPc
  ar : List ClientHandler
  deriving DecidableEq

def Server.init : Server := ⟨.accept, []⟩

/-- The `k`-th client sends a message or ends its stream; the `k`-th handler runs. -/
inductive Event
  | main
  | message (k : Nat) (line : JString)
  | hangup (k : Nat)
  | handler (k : Nat)

/-- `t.start()`, once for a thread. -/
def ClientHandler.start (h : ClientHandler) : Option ClientHandler :=
  if h.pc = .new then some { h with pc := .name } else none

def ClientHandler.receives (line : JString) (h : ClientHandler) : Option ClientHandler :=
  if h.ended then none else some { h with inbox := h.inbox ++ [line] }

def ClientHandler.hangsUp (h : ClientHandler) : Option ClientHandler :=
  if h.ended then none else some { h with ended := true }

/-- What one handler does, or its connection. -/
def Server.act (s : Server) (k : Nat) (f : ClientHandler → Option ClientHandler) :
    Option Server :=
  (s.ar[k]?.bind f).map fun h => { s with ar := s.ar.set k h }

def Server.mainStep (s : Server) : Option Server :=
  match s.main with
  | .accept => some { s with main := .add }
  | .add => some ⟨.start, s.ar ++ [.create]⟩
  | .start => (s.act (s.ar.length - 1) ClientHandler.start).map fun t => { t with main := .accept }

def Server.step (s : Server) : Event → Option Server
  | .main => s.mainStep
  | .message k line => s.act k (ClientHandler.receives line)
  | .hangup k => s.act k ClientHandler.hangsUp
  | .handler k => s.act k ClientHandler.step

/-- No logged-in handler has read the end of its stream. -/
def Server.Noticed (s : Server) : Prop := ∀ h ∈ s.ar, h.isloggedin = true → h.eof = false

/-- A client that ends its stream has sent "logout" after its name. -/
def Goodbye (s : Server) : Event → Prop
  | .hangup k => ∀ h, s.ar[k]? = some h → logout ∈ h.sent.tail
  | _ => True

variable {h g : ClientHandler} {s t : Server} {k : Nat}

theorem Server.act_eq_some {f : ClientHandler → Option ClientHandler} :
    s.act k f = some t ↔
      ∃ h g, s.ar[k]? = some h ∧ f h = some g ∧ t = { s with ar := s.ar.set k g } := by
  simp only [Server.act, Option.map_eq_some_iff, Option.bind_eq_some_iff]
  constructor
  · rintro ⟨g, ⟨h, here, one⟩, rfl⟩
    exact ⟨h, g, here, one, rfl⟩
  · rintro ⟨h, g, here, one, rfl⟩
    exact ⟨g, ⟨h, here, one⟩, rfl⟩

/-- Properties of single handlers, over everything that can happen to one. -/
theorem Server.step_forall {P : ClientHandler → Prop} {e : Event} (all : ∀ h ∈ s.ar, P h)
    (step : s.step e = some t) (fresh : P .create)
    (start : ∀ h g, P h → h.start = some g → P g)
    (message : ∀ line h g, P h → h.receives line = some g → P g)
    (hangup : ∀ k h g, e = .hangup k → s.ar[k]? = some h → P h → h.hangsUp = some g → P g)
    (run : ∀ h g, P h → h.step = some g → P g) : ∀ h ∈ t.ar, P h := by
  have acted {k : Nat} {f : ClientHandler → Option ClientHandler} {u : Server}
      (one : ∀ h g, s.ar[k]? = some h → P h → f h = some g → P g)
      (act : s.act k f = some u) : ∀ h ∈ u.ar, P h := by
    obtain ⟨h, g, here, done, rfl⟩ := Server.act_eq_some.mp act
    intro i mem
    rcases List.mem_or_eq_of_mem_set mem with old | rfl
    · exact all i old
    · exact one h i here (all h (List.mem_of_getElem? here)) done
  cases e with
  | main =>
      simp only [Server.step, Server.mainStep] at step
      split at step
      · cases step
        exact all
      · cases step
        rintro i mem
        rcases List.mem_append.mp mem with old | new
        · exact all i old
        · rw [List.mem_singleton] at new
          rw [new]
          exact fresh
      · obtain ⟨u, act, rfl⟩ := Option.map_eq_some_iff.mp step
        have started : ∀ h ∈ u.ar, P h := acted (fun h g _ => start h g) act
        exact started
  | message k line => exact acted (fun h g _ => message line h g) step
  | hangup k => exact acted (fun h g here => hangup k h g rfl here) step
  | handler k => exact acted (fun h g _ => run h g) step

theorem Stage.start (stage : Stage h) (start : h.start = some g) : Stage g := by
  rw [ClientHandler.start, Option.ite_none_right_eq_some] at start
  obtain ⟨fresh, same⟩ := start
  rw [← Option.some.inj same]
  cases stage with
  | new inbox ended => exact .name inbox ended
  | name => cases fresh
  | receive => cases fresh
  | lost atLoop =>
      rw [atLoop] at fresh
      cases fresh
  | left name stays heard printed eof progress =>
      simp [fresh] at progress

theorem Stage.receives {line : JString} (stage : Stage h) (message : h.receives line = some g) :
    Stage g := by
  rw [ClientHandler.receives, Option.ite_none_left_eq_some] at message
  obtain ⟨opened, same⟩ := message
  rw [← Option.some.inj same]
  cases stage with
  | new inbox ended => exact .new (inbox ++ [line]) ended
  | name inbox ended => exact .name (inbox ++ [line]) ended
  | receive name inbox ended stays => exact .receive name (inbox ++ [line]) ended stays
  | lost atLoop loggedin drained ended => exact absurd ended opened
  | left name stays heard printed eof progress => exact .left name stays heard printed eof progress

theorem Stage.hangsUp (stage : Stage h) (hangup : h.hangsUp = some g) : Stage g := by
  rw [ClientHandler.hangsUp, Option.ite_none_left_eq_some] at hangup
  obtain ⟨opened, same⟩ := hangup
  rw [← Option.some.inj same]
  cases stage with
  | new inbox ended => exact .new inbox true
  | name inbox ended => exact .name inbox true
  | receive name inbox ended stays => exact .receive name inbox true stays
  | lost atLoop loggedin drained ended => exact absurd ended opened
  | left name stays heard printed eof progress => exact .left name stays heard printed eof progress

theorem stages {ok : Server → Event → Prop} (reached : Reach Server.step ok .init s) :
    ∀ h ∈ s.ar, Stage h := by
  apply reached.invariant (I := fun u => ∀ h ∈ u.ar, Stage h) nofun
  intro t e u all _ step
  exact Server.step_forall all step (.new [] false) (fun _ _ => Stage.start)
    (fun _ _ _ => Stage.receives) (fun _ _ _ _ _ => Stage.hangsUp) (fun _ _ => Stage.step)

/-- The end of the stream is read when no "logout" came before it. -/
theorem Stage.eof (stage : Stage h) (eof : h.eof = true) :
    h.isloggedin = true ∧ h.ended = true ∧ logout ∉ h.sent.tail := by
  cases stage with
  | new => cases eof
  | name => cases eof
  | receive => cases eof
  | lost atLoop loggedin drained ended stays =>
      rw [ClientHandler.sent, drained, List.append_nil]
      exact ⟨loggedin, ended, stays⟩
  | left name stays heard printed unread =>
      rw [unread] at eof
      cases eof

/-- What the condition gives for every connection. -/
def ClientHandler.Parted (h : ClientHandler) : Prop := h.ended = true → logout ∈ h.sent.tail

theorem parted (reached : Reach Server.step Goodbye .init s) : ∀ h ∈ s.ar, h.Parted := by
  apply reached.invariant (I := fun u => ∀ h ∈ u.ar, h.Parted) nofun
  intro t e u all ok step
  refine Server.step_forall all step nofun ?_ ?_ ?_ ?_
  · intro h g before start
    rw [← Option.some.inj (Option.ite_none_right_eq_some.mp start).2]
    exact before
  · intro line h g _ message ended
    rw [← Option.some.inj (Option.ite_none_left_eq_some.mp message).2] at ended
    exact absurd ended (Option.ite_none_left_eq_some.mp message).1
  · rintro k h g rfl here _ hangup _
    rw [← Option.some.inj (Option.ite_none_left_eq_some.mp hangup).2]
    exact ok h here
  · intro h g before run ended
    obtain ⟨sent, same⟩ := ClientHandler.step_connection run
    rw [sent]
    exact before (same.symm.trans ended)

theorem goodbye_noticed (reached : Reach Server.step Goodbye .init s) : s.Noticed := by
  intro h mem _
  by_contra unnoticed
  rw [Bool.not_eq_false] at unnoticed
  obtain ⟨_, ended, stays⟩ := (stages reached h mem).eof unnoticed
  exact stays (parted reached h mem ended)

/-- A thread not started yet is the one `main` is about to start. -/
def Server.Fresh (s : Server) : Prop :=
  ∀ k h, s.ar[k]? = some h → h.pc = .new → s.main = .start ∧ k + 1 = s.ar.length

theorem ClientHandler.step_pc (step : h.step = some g) : g.pc ≠ .new := by
  unfold ClientHandler.step at step
  split at step
  · cases step
  · split at step
    · obtain ⟨u, _, rfl⟩ := Option.map_eq_some_iff.mp step
      simp
    · cases step
      simp [ClientHandler.readName]
  · split at step
    next atLoop _ _ =>
      obtain ⟨_, rfl⟩ := ClientHandler.endOfStream_eq_some.mp step
      simp [atLoop]
    next m rest _ =>
      cases step
      by_cases last : m = logout <;> simp [ClientHandler.readLine, last]
  · cases step; simp
  · cases step; simp
  · cases step; simp
  · cases step

theorem Server.Fresh.act {f : ClientHandler → Option ClientHandler} (fresh : s.Fresh)
    (old : ∀ h g, f h = some g → g.pc = .new → h.pc = .new) (act : s.act k f = some t) :
    t.Fresh := by
  obtain ⟨h, g, here, one, rfl⟩ := Server.act_eq_some.mp act
  intro j i at_j new
  rw [List.length_set]
  rcases Slots.set_cases at_j with ⟨rfl, rfl⟩ | ⟨_, at_j⟩
  · exact fresh j h here (old h i one new)
  · exact fresh j i at_j new

theorem Server.Fresh.mainStep (fresh : s.Fresh) (step : s.mainStep = some t) : t.Fresh := by
  unfold Server.mainStep at step
  split at step
  next atAccept =>
    cases step
    intro k h here new
    have := (fresh k h here new).1
    rw [atAccept] at this
    cases this
  next atAdd =>
    cases step
    intro k h here new
    rcases Slots.concat_cases here with ⟨rfl, rfl⟩ | here
    · exact ⟨rfl, by rw [List.length_append, List.length_singleton]⟩
    · have := (fresh k h here new).1
      rw [atAdd] at this
      cases this
  next =>
    obtain ⟨u, act, rfl⟩ := Option.map_eq_some_iff.mp step
    obtain ⟨h, g, here, one, rfl⟩ := Server.act_eq_some.mp act
    intro k i at_k new
    exfalso
    rcases Slots.set_cases at_k with ⟨_, rfl⟩ | ⟨other, at_k⟩
    · rw [← Option.some.inj (Option.ite_none_right_eq_some.mp one).2] at new
      cases new
    · have := (fresh k i at_k new).2
      omega

theorem fresh (reached : Reach Server.step anyStep .init s) : s.Fresh := by
  apply reached.invariant (I := Server.Fresh) nofun
  intro t e u before _ step
  cases e with
  | main => exact before.mainStep step
  | message k line =>
      refine before.act (fun h g message new => ?_) step
      rw [← Option.some.inj (Option.ite_none_left_eq_some.mp message).2] at new
      exact new
  | hangup k =>
      refine before.act (fun h g hangup new => ?_) step
      rw [← Option.some.inj (Option.ite_none_left_eq_some.mp hangup).2] at new
      exact new
  | handler k => exact before.act (fun h g run new => absurd new (h.step_pc run)) step

/-- The thread of one handler while everything else waits. -/
theorem Server.reach_handler (here : s.ar[k]? = some h) (reached : Reach ClientHandler.alone anyStep h g) :
    Reach Server.step anyStep s { s with ar := s.ar.set k g } := by
  obtain ⟨bound, same⟩ := List.getElem?_eq_some_iff.mp here
  induction reached with
  | refl =>
      rw [← same, List.set_getElem_self]
      exact .refl
  | tail _ _ step ih =>
      refine ih.tail (e := .handler k) trivial (Server.act_eq_some.mpr ?_)
      refine ⟨_, _, List.getElem?_set_self bound, step, ?_⟩
      rw [List.set_set]

theorem heardAll_drains {inbox : List JString} (name : JString) (lines : List JString)
    (stays : logout ∉ inbox) :
    ∃ g, Reach ClientHandler.alone anyStep (.heardAll name lines inbox true) g ∧
      g.eof = true ∧ g.isloggedin = true := by
  induction inbox generalizing lines with
  | nil => exact ⟨_, .single (e := ()) trivial rfl, rfl, rfl⟩
  | cons m rest ih =>
      have other : m ≠ logout := fun same => stays (same ▸ List.mem_cons_self)
      have later : logout ∉ rest := fun mem => stays (List.mem_cons_of_mem m mem)
      obtain ⟨g, reached, lost⟩ := ih (lines ++ [m]) later
      have line : ClientHandler.alone (.heardAll name lines (m :: rest) true) () =
          some (.heardAll name (lines ++ [m]) rest true) :=
        congrArg some (ClientHandler.readLine_heardAll other)
      exact ⟨g, (Reach.single trivial line).trans reached, lost⟩

/-- A started thread gets to the end of a stream without "logout". -/
theorem Stage.reaches_eof (stage : Stage h) (started : h.pc ≠ .new) (ended : h.ended = true)
    (stays : logout ∉ h.sent.tail) :
    ∃ g, Reach ClientHandler.alone anyStep h g ∧ g.eof = true ∧ g.isloggedin = true := by
  cases stage with
  | new => exact absurd rfl started
  | name inbox e =>
      cases ended
      cases inbox with
      | nil => exact ⟨_, .single (e := ()) trivial rfl, rfl, rfl⟩
      | cons m rest =>
          obtain ⟨g, reached, lost⟩ := heardAll_drains m [] stays
          have first : ClientHandler.alone { ClientHandler.create with
              pc := .name, inbox := m :: rest, ended := true } () =
              some (.heardAll m [] rest true) := rfl
          exact ⟨g, (Reach.single trivial first).trans reached, lost⟩
  | receive name inbox e heard =>
      cases ended
      exact heardAll_drains name _ fun mem => stays (List.mem_append_right _ mem)
  | lost atLoop loggedin drained _ _ eof => exact ⟨h, .refl, eof, loggedin⟩
  | left name _ heard =>
      refine absurd ?_ stays
      rw [ClientHandler.sent, heard]
      exact List.mem_append_left _ (List.mem_append_right _ List.mem_cons_self)

theorem Server.Fresh.starts (fresh : s.Fresh) (here : s.ar[k]? = some h) (new : h.pc = .new) :
    s.step .main = some ⟨.accept, s.ar.set k { h with pc := .name }⟩ := by
  obtain ⟨atStart, last⟩ := fresh k h here new
  have index : s.ar.length - 1 = k := by rw [← last, Nat.add_sub_cancel]
  have start : h.start = some { h with pc := .name } := if_pos new
  simp only [Server.step, Server.mainStep, atStart, index, Server.act, here, Option.bind_some,
    start, Option.map_some]

/-- A handler whose client has left without "logout" gets to the end of the
stream, once `main` has started it. -/
theorem reaches_unnoticed (reached : Reach Server.step anyStep .init s) (here : s.ar[k]? = some h)
    (ended : h.ended = true) (stays : logout ∉ h.sent.tail) :
    ∃ t, Reach Server.step anyStep s t ∧ ¬ t.Noticed := by
  have bound : k < s.ar.length := (List.getElem?_eq_some_iff.mp here).1
  have stage : Stage h := stages reached h (List.mem_of_getElem? here)
  have lost {t : Server} {f : ClientHandler} (eof : f.eof = true) (loggedin : f.isloggedin = true)
      (listed : f ∈ t.ar) : ¬ t.Noticed := by
    intro noticed
    rw [noticed f listed loggedin] at eof
    cases eof
  by_cases new : h.pc = .new
  · have start := (fresh reached).starts here new
    have started : Stage { h with pc := .name } := stage.start (if_pos new)
    obtain ⟨f, alone, eof, loggedin⟩ := started.reaches_eof nofun ended stays
    have at_k := List.getElem?_set_self (a := { h with pc := .name }) bound
    refine ⟨_, (Reach.single trivial start).trans (Server.reach_handler at_k alone), ?_⟩
    refine lost eof loggedin (List.mem_of_getElem? (List.getElem?_set_self ?_))
    rw [List.length_set]
    exact bound
  · obtain ⟨f, alone, eof, loggedin⟩ := stage.reaches_eof new ended stays
    refine ⟨_, Server.reach_handler here alone, ?_⟩
    exact lost eof loggedin (List.mem_of_getElem? (List.getElem?_set_self bound))

theorem hangup_unnoticed (reached : Reach Server.step anyStep .init s)
    (abrupt : ¬ Goodbye s (.hangup k)) (step : s.step (.hangup k) = some t) :
    ∃ u, Reach Server.step anyStep t u ∧ ¬ u.Noticed := by
  have reachedT : Reach Server.step anyStep .init t := reached.tail trivial step
  obtain ⟨h, g, here, hangup, rfl⟩ := Server.act_eq_some.mp step
  have bound : k < s.ar.length := (List.getElem?_eq_some_iff.mp here).1
  have closed := Option.some.inj (Option.ite_none_left_eq_some.mp hangup).2
  refine reaches_unnoticed reachedT (List.getElem?_set_self bound) (by rw [← closed]) ?_
  intro keyword
  rw [← closed] at keyword
  refine abrupt fun i at_k => ?_
  rw [here] at at_k
  cases at_k
  exact keyword

/-- `run` returns exactly when "logout" is among the lines; while clients say
goodbye no logged-in handler has lost its client, and one that does not may be
lost unnoticed. -/
theorem lost_client (msgs : List JString) :
    ((∃ h, Reach ClientHandler.alone anyStep (.fed msgs) h ∧ h.pc = .done) ↔ logout ∈ msgs.tail) ∧
      (∀ s, Reach Server.step Goodbye .init s → s.Noticed) ∧
      ∀ s k t, Reach Server.step anyStep .init s → ¬ Goodbye s (.hangup k) →
        s.step (.hangup k) = some t → ∃ u, Reach Server.step anyStep t u ∧ ¬ u.Noticed :=
  ⟨fed_returns_iff msgs, fun _ => goodbye_noticed, fun _ _ _ => hangup_unnoticed⟩

/-- "bob" sends his name and is gone. -/
theorem lost_client_bob :
    ¬ (∀ msgs, ∃ h, Reach ClientHandler.alone anyStep (.fed msgs) h ∧ h.pc = .done) ∧
      ¬ ∀ s, Reach Server.step anyStep .init s → s.Noticed := by
  constructor
  · intro returns
    have keyword := (fed_returns_iff [literal "bob"]).mp (returns _)
    exact List.not_mem_nil keyword
  · intro noticed
    have lost : run Server.step .init
        [.main, .main, .main, .message 0 (literal "bob"), .handler 0, .hangup 0, .handler 0] =
        some ⟨.accept, [⟨.receive, literal "bob", true, false, false,
          [announcement (literal "bob")], [], true, [literal "bob"], true⟩]⟩ := rfl
    have eof := noticed _ (reach_of_run lost) _ List.mem_cons_self rfl
    cases eof

end Login
