import NetworksLab.LoginHandler

/-! `Client` of the login server and the handler of its connection. The client
tests the variable that held the name, the handler reads the name before its
loop. -/
namespace Login
open JavaText Transition

/-- `out.writeUTF(line)`; the exception for a long line is caught. -/
def written (line : JString) : List JString := if Fits line then [line] else []

/-- `while (!line.equals("logout"))`: what it sends on these lines of the
console, `none` while it has not been left. -/
def Client.loop (line : JString) : List JString → Option (List JString)
  | [] => if line = logout then some [] else none
  | l :: lines =>
      if line = logout then some [] else (Client.loop l lines).map fun sent => written l ++ sent

/-- The constructor of `Client`, the whole program. -/
def Client.run (name : JString) (lines : List JString) : Option (List JString) :=
  (Client.loop name lines).map fun sent => written name ++ sent

/-- When the client has left its loop, the handler leaves its own through
"logout" on what was sent, having printed the name and the lines after it. -/
def Agrees (name : JString) (lines : List JString) : Prop :=
  ∀ sent, Client.run name lines = some sent →
    ∃ rest t, sent = name :: rest ∧ Reach ClientHandler.alone anyStep (.fed sent) t ∧
      t.LoggedOut ∧ t.printed = transcript name rest

variable {name line : JString} {lines sent : List JString}

theorem written_fits (fits : Fits line) : written line = [line] := if_pos fits

theorem Client.loop_logout : Client.loop logout lines = some [] := by
  cases lines <;> exact if_pos rfl

/-- The keyword is the last line sent, and no other line is. -/
theorem Client.loop_sent (fits : ∀ l ∈ lines, Fits l) (stays : line ≠ logout)
    (out : Client.loop line lines = some sent) : ∃ rest, sent = rest ++ [logout] ∧ logout ∉ rest := by
  induction lines generalizing line sent with
  | nil =>
      rw [Client.loop, if_neg stays] at out
      cases out
  | cons l lines ih =>
      rw [Client.loop, if_neg stays] at out
      obtain ⟨later, outLater, rfl⟩ := Option.map_eq_some_iff.mp out
      rw [written_fits (fits l List.mem_cons_self)]
      by_cases last : l = logout
      · subst last
        rw [Client.loop_logout] at outLater
        cases outLater
        exact ⟨[], rfl, List.not_mem_nil⟩
      · have fitsLater : ∀ l ∈ lines, Fits l := fun m mem => fits m (List.mem_cons_of_mem l mem)
        obtain ⟨rest, rfl, keyword⟩ := ih fitsLater last outLater
        refine ⟨l :: rest, rfl, ?_⟩
        rw [List.mem_cons, not_or]
        exact ⟨fun same => last same.symm, keyword⟩

theorem not_agrees_logout : ¬ Agrees logout lines := by
  intro agrees
  have sent : Client.run logout lines = some [logout] := by
    rw [Client.run, Client.loop_logout]
    decide
  obtain ⟨_, t, _, reached, out, _⟩ := agrees _ sent
  have keyword := (fed_returns_iff [logout]).mp ⟨t, reached, out.returned⟩
  exact List.not_mem_nil keyword

/-- Client and handler agree on the end of the session exactly when the name is
not the keyword. -/
theorem logout_agrees (name : JString) (lines : List JString) (fits : Fits name)
    (linesFit : ∀ l ∈ lines, Fits l) : Agrees name lines ↔ name ≠ logout := by
  constructor
  · rintro agrees rfl
    exact not_agrees_logout agrees
  · intro stays sent out
    obtain ⟨later, outLater, rfl⟩ := Option.map_eq_some_iff.mp out
    obtain ⟨rest, rfl, keyword⟩ := Client.loop_sent linesFit stays outLater
    obtain ⟨t, reached, left, printed⟩ := fed_reaches name [] keyword
    rw [written_fits fits]
    exact ⟨rest ++ [logout], t, rfl, reached, left, printed⟩

/-- Bob says hi and logs out, with a line left at his console. -/
theorem logout_agrees_bob : ∃ t,
    Client.run (literal "bob") [literal "hi", logout, literal "later"] =
      some [literal "bob", literal "hi", logout] ∧
    Reach ClientHandler.alone anyStep (.fed [literal "bob", literal "hi", logout]) t ∧ t.LoggedOut ∧
    t.printed = transcript (literal "bob") [literal "hi", logout] := by
  have sent : Client.run (literal "bob") [literal "hi", logout, literal "later"] =
      some [literal "bob", literal "hi", logout] := by decide
  have agrees := (logout_agrees (literal "bob") [literal "hi", logout, literal "later"] (by decide)
    (by decide)).mpr (by decide)
  obtain ⟨rest, t, split, reached, out, printed⟩ := agrees _ sent
  obtain rfl := (List.cons.inj split).2
  exact ⟨t, sent, reached, out, printed⟩

/-- The name "logout" leaves the handler waiting in its loop. -/
theorem logout_agrees_keyword : ¬ ∀ (name : JString) (lines : List JString), Fits name →
    (∀ l ∈ lines, Fits l) → Agrees name lines := by
  intro agrees
  exact not_agrees_logout (agrees logout [] (by decide) nofun)

end Login
