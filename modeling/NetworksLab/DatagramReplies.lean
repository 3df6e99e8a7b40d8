import Mathlib.Data.Fin.Basic
import NetworksLab.CString
import NetworksLab.DatagramChat
import NetworksLab.JavaText
import NetworksLab.RequestReply

/-! The programs in which one datagram is answered with one datagram: the greeting and
the date in Java, whose servers go on for ever, and the greeting in Python and in C,
whose servers end after one answer. -/
namespace DatagramReplies
open DatagramChat (Text getBytes newString)
open CString (Bytes ascii zeros)
open JavaText (Date)
open RequestReply Transition

/-- The array behind a Java packet after `receive`, and the string built from all of it. -/
def received (malformed : Bytes → Text) (length : ℕ) (datagram : Bytes) : Text :=
  newString malformed (datagram.take length ++ zeros (length - datagram.length))

/-- `Client` and `Server` with the greeting, in Java. -/
def greetingProgram (malformed : Bytes → Text) : Program Bytes Text where
  request := getBytes "Hello from Client!!".toList
  reply _ := getBytes "Hello from Server!!".toList
  print := received malformed 1024
  limit := none

def dayNames : List Text := ["Sun", "Mon", "Tue", "Wed", "Thu", "Fri", "Sat"].map String.toList

def monthNames : List Text :=
  ["Jan", "Feb", "Mar", "Apr", "May", "Jun", "Jul", "Aug", "Sep", "Oct", "Nov", "Dec"].map String.toList

def twoDigits (n : ℕ) : Text := (Nat.toDigits 10 n).leftpad 2 '0'

/-- `dow mon dd hh:mm:ss`. -/
def dayAndTime (day : Fin 7) (d : Date) : Text :=
  dayNames[day] ++ ' ' :: monthNames[d.month] ++ ' ' :: twoDigits (d.day + 1) ++
    ' ' :: twoDigits d.hour ++ ':' :: twoDigits d.minute ++ ':' :: twoDigits d.second

/-- `Date.toString()`: `dow mon dd hh:mm:ss zzz yyyy`, for a time zone with one name all the
year round. -/
def dateText (zone : Text) (day : Fin 7) (d : Date) : Text :=
  dayAndTime day d ++ ' ' :: zone ++ ' ' :: Nat.toDigits 10 d.year

/-- `Client` and `Server` with the date; `calendar` has the day of the week and the date
at each time on the server's clock. -/
def dateProgram (malformed : Bytes → Text) (zone : Text) (calendar : ℕ → Fin 7 × Date) :
    Program Bytes Text where
  request := zeros 100
  reply now := getBytes (dateText zone (calendar now).1 (calendar now).2)
  print := received malformed 100
  limit := none

/-- The programs whose server ends after one answer. -/
inductive Greeter
  | python
  | c

def Greeter.greeting : Greeter → Bytes
  | python => ascii "Greeting from server"
  | c => ascii "Hello Client!"

/-- `char buffer[BUFFER_SIZE] = "I am client"`. -/
def clientBuffer : Bytes := ascii "I am client" ++ zeros (256 - 11)

/-- The client in C receives over what its buffer holds; `none` is a `printf` that runs
past the buffer. -/
def Greeter.program : Greeter → Program Bytes (Option Bytes)
  | python => ⟨[], fun _ => greeting python, fun data => some (data.take 1024), some 1⟩
  | c => ⟨ascii "1" ++ [0], fun _ => greeting c,
      fun data => CString.read (CString.store clientBuffer (data.take 256)), some 1⟩

/-- Each character is one byte. -/
def Ascii (text : Text) : Prop := ∀ c ∈ text, c.utf8Size = 1

theorem Ascii.append {a b : Text} (ha : Ascii a) (hb : Ascii b) : Ascii (a ++ b) := by
  intro c mem
  exact (List.mem_append.mp mem).elim (ha c) (hb c)

theorem Ascii.length_getBytes {text : Text} (h : Ascii text) : (getBytes text).length = text.length := by
  induction text with
  | nil => rfl
  | cons c text ih =>
      rw [getBytes, List.flatMap_cons, List.length_append, String.length_utf8EncodeChar,
        h c List.mem_cons_self, List.length_cons, Nat.add_comm]
      exact congrArg (· + 1) (ih fun d mem => h d (List.mem_cons_of_mem _ mem))

theorem ascii_of_isDigit {c : Char} (digit : c.isDigit = true) : c.utf8Size = 1 := by
  have small := (Char.isDigit_iff_toNat.mp digit).2
  exact Char.utf8Size_eq_one_iff.mpr (by
    rw [UInt32.le_iff_toNat_le]
    exact small.trans (by decide))

theorem ascii_toDigits (n : ℕ) : Ascii (Nat.toDigits 10 n) := fun _ mem =>
  ascii_of_isDigit (Nat.isDigit_of_mem_toDigits (by decide) (by decide) mem)

theorem ascii_twoDigits (n : ℕ) : Ascii (twoDigits n) := by
  intro c mem
  rcases List.mem_append.mp mem with zero | digit
  · rw [(List.mem_replicate.mp zero).2]
    rfl
  · exact ascii_toDigits n c digit

theorem twoDigits_length {n : ℕ} (small : n < 100) : (twoDigits n).length = 2 := by
  rw [twoDigits, List.length_leftpad]
  exact Nat.max_eq_left ((Nat.length_toDigits_le_iff (by decide) (by decide)).mpr small)

/-- The text has three characters, of one byte each. -/
def abbreviation (text : Text) : Bool := text.all (·.utf8Size == 1) && text.length == 3

theorem ascii_of_abbreviation {text : Text} (short : abbreviation text = true) :
    Ascii text ∧ text.length = 3 := by
  simpa [abbreviation, Ascii] using short

theorem dayNames_short (day : Fin 7) : Ascii dayNames[day] ∧ dayNames[day].length = 3 := by
  have all : dayNames.all abbreviation = true := rfl
  exact ascii_of_abbreviation (List.all_eq_true.mp all _ (List.getElem_mem _))

theorem monthNames_short (month : Fin 12) : Ascii monthNames[month] ∧ monthNames[month].length = 3 := by
  have all : monthNames.all abbreviation = true := rfl
  exact ascii_of_abbreviation (List.all_eq_true.mp all _ (List.getElem_mem _))

theorem ascii_dayAndTime (day : Fin 7) (d : Date) : Ascii (dayAndTime day d) := by
  have blank {text : Text} (h : Ascii text) : Ascii (' ' :: text) := List.forall_mem_cons.mpr ⟨rfl, h⟩
  have colon {text : Text} (h : Ascii text) : Ascii (':' :: text) := List.forall_mem_cons.mpr ⟨rfl, h⟩
  exact (((((dayNames_short day).1.append (blank (monthNames_short d.month).1)).append
    (blank (ascii_twoDigits _))).append (blank (ascii_twoDigits _))).append
    (colon (ascii_twoDigits _))).append (colon (ascii_twoDigits _))

theorem dayAndTime_length (day : Fin 7) (d : Date) : (dayAndTime day d).length = 19 := by
  simp only [dayAndTime, List.length_append, List.length_cons, (dayNames_short day).2,
    (monthNames_short d.month).2]
  rw [twoDigits_length (by omega), twoDigits_length (by omega), twoDigits_length (by omega),
    twoDigits_length (by omega)]

theorem dateText_length_le (zone : Text) (day : Fin 7) (d : Date) :
    (getBytes (dateText zone day d)).length ≤ 30 + (getBytes zone).length := by
  have year : (Nat.toDigits 10 d.year).length ≤ 9 :=
    (Nat.length_toDigits_le_iff (by decide) (by decide)).mpr (by omega)
  have first := (ascii_dayAndTime day d).length_getBytes
  have last := (ascii_toDigits d.year).length_getBytes
  have blank (text : Text) : getBytes (' ' :: text) = 32 :: getBytes text := rfl
  rw [dateText, DatagramChat.getBytes_append, DatagramChat.getBytes_append, blank, blank]
  simp only [List.length_append, List.length_cons, first, last, dayAndTime_length]
  omega

/-- The array of the client has room for the date. -/
theorem received_eq {malformed : Bytes → Text} {length : ℕ} {text : Text}
    (fits : (getBytes text).length ≤ length) : received malformed length (getBytes text) =
      text ++ List.replicate (length - (getBytes text).length) (Char.ofNat 0) := by
  have zeroed := DatagramChat.getBytes_zeros (length - (getBytes text).length)
  rw [received, List.take_of_length_le fits, zeros, ← zeroed, ← DatagramChat.getBytes_append,
    DatagramChat.newString_getBytes]

variable {α : Type*} [DecidableEq α] {malformed : Bytes → Text} {zone : Text}
  {calendar : ℕ → Fin 7 × Date}

/-- Every client that prints anything prints the greeting and the rest of the array. -/
theorem printed_greeting {s : System α Bytes Text}
    (reached : Reach (System.step (greetingProgram malformed)) anyStep .start s) {a : α} {time : ℕ} {text : Text}
    (out : (s.clients a).printed = some (time, text)) :
    text = "Hello from Server!!".toList ++ List.replicate (1024 - 19) (Char.ofNat 0) := by
  obtain ⟨_, _, _, _, _, array⟩ := System.made_between reached out
  simp only [greetingProgram] at array
  have size : (getBytes "Hello from Server!!".toList).length = 19 := rfl
  rw [array, received_eq (by rw [size]; decide), size]

/-- Whatever becomes of the datagrams and however many clients there are, the date that
a client prints was read off the server's clock between its request and its `println`. It
comes with the rest of the array, cut off only in a time zone with a very long name. Clients
are told apart by their addresses, each used by one. -/
theorem printed_date {s : System α Bytes Text}
    (reached : Reach (System.step (dateProgram malformed zone calendar)) anyStep .start s)
    {a : α} {time : ℕ} {text : Text} (out : (s.clients a).printed = some (time, text)) :
    ∃ asked made, (s.clients a).asked = some asked ∧ asked ≤ made ∧ made ≤ time ∧
      text = received malformed 100 (getBytes (dateText zone (calendar made).1 (calendar made).2)) ∧
      ((getBytes zone).length ≤ 70 → ∃ zeros, text =
        dateText zone (calendar made).1 (calendar made).2 ++ List.replicate zeros (Char.ofNat 0)) := by
  obtain ⟨asked, made, request, after, before, array⟩ := System.made_between reached out
  simp only [dateProgram] at array
  refine ⟨asked, made, request, after, before, array, fun short => ⟨_, array.trans (received_eq ?_)⟩⟩
  have fits := dateText_length_le zone (calendar made).1 (calendar made).2
  omega

/-- A clock that starts at five minutes past one on a leap day. -/
def leapDay (now : ℕ) : Fin 7 × Date :=
  (Fin.clamp 4 6, ⟨Fin.clamp 2024 292278994, Fin.clamp 1 11, Fin.clamp 28 30, Fin.clamp 13 23,
    Fin.clamp 5 59, Fin.clamp now 59⟩)

/-- Both ask, the second request overtakes the first, which gets lost. -/
def secondAnswered : List (Event Bool) :=
  [.client false, .tick, .client true, .tick, .serverReceive 1 false, .tick, .server, .tick, .server,
    .loseRequest 0, .clientReceive 0 true, .tick, .client true]

theorem printed_date_secondAnswered : ∃ s text,
    run (System.step (dateProgram (fun _ => []) "GMT".toList leapDay)) .start secondAnswered = some s ∧
    (s.clients true).printed = some (5, text) ∧
    ∃ made, 1 ≤ made ∧ made ≤ 5 ∧ ∃ zeros, text =
      dateText "GMT".toList (leapDay made).1 (leapDay made).2 ++ List.replicate zeros (Char.ofNat 0) := by
  obtain ⟨s, ran⟩ : ∃ s, run (System.step (dateProgram (fun _ => []) "GMT".toList leapDay)) .start
      secondAnswered = some s := ⟨_, rfl⟩
  obtain ⟨⟨text, out⟩, request⟩ : (∃ text, (s.clients true).printed = some (5, text)) ∧
      (s.clients true).asked = some 1 := by
    obtain rfl := Option.some.inj ran
    exact ⟨⟨_, rfl⟩, rfl⟩
  obtain ⟨asked, made, request', after, before, _, whole⟩ := printed_date (reach_of_run ran) out
  obtain rfl := Option.some.inj (request.symm.trans request')
  exact ⟨s, text, ran, out, made, after, before, whole (by decide)⟩

/-- The servers in Java never stop answering: whatever has become of the datagrams, a client
that waits and whose request is still in transit can get its reply. -/
theorem still_served {p : Program Bytes Text}
    (java : p = greetingProgram malformed ∨ p = dateProgram malformed zone calendar) {s : System α Bytes Text}
    (reached : Reach (System.step p) anyStep .start s) {a : α} {data : Bytes}
    (waits : (s.clients a).pc = .receive) (sent : (a, data) ∈ s.requests) :
    ∃ t, Reach (System.step p) anyStep s t ∧ (t.clients a).printed ≠ none := by
  have unlimited : p.limit = none := by
    rcases java with rfl | rfl
    · rfl
    · rfl
  exact System.served unlimited reached waits sent

/-- The server is at the second request, and the first one is in transit. -/
def secondTaken : List (Event Bool) := [.client false, .client true, .serverReceive 1 false, .server]

theorem still_served_secondTaken : ∃ s t,
    run (System.step (dateProgram (fun _ => []) "GMT".toList leapDay)) .start secondTaken = some s ∧
    Reach (System.step (dateProgram (fun _ => []) "GMT".toList leapDay)) anyStep s t ∧
    (t.clients false).printed ≠ none := by
  obtain ⟨s, ran⟩ : ∃ s, run (System.step (dateProgram (fun _ => []) "GMT".toList leapDay)) .start
      secondTaken = some s := ⟨_, rfl⟩
  obtain ⟨waits, request⟩ : (s.clients false).pc = .receive ∧ (false, zeros 100) ∈ s.requests := by
    obtain rfl := Option.some.inj ran
    exact ⟨rfl, List.mem_cons_self⟩
  obtain ⟨t, reached, printed⟩ := still_served (.inr rfl) (reach_of_run ran) waits request
  exact ⟨s, t, ran, reached, printed⟩

theorem Greeter.prints (g : Greeter) (now : ℕ) : g.program.print (g.program.reply now) = some g.greeting := by
  cases g with
  | python => rfl
  | c =>
      have whole : CString.read (CString.store clientBuffer ((greeting c).take 256)) = some (greeting c) := by
        decide
      exact whole

/-- However many clients there are, the server of the greeting in Python or in C greets
one of them, and the others wait for ever. -/
theorem greets_one (g : Greeter) {s : System α Bytes (Option Bytes)}
    (reached : Reach (System.step g.program) anyStep .start s) :
    (∀ a b, (s.clients a).printed ≠ none → (s.clients b).printed ≠ none → a = b) ∧
    ∀ a time text, (s.clients a).printed = some (time, text) → text = some g.greeting := by
  refine ⟨fun a b first second => ?_, fun a time text out => ?_⟩
  · by_contra different
    have two : [a, b].length ≤ 1 := by
      refine System.printed_le (p := g.program) ?_ Nat.one_pos reached ?_ ?_
      · cases g <;> rfl
      · simpa using different
      · simpa using ⟨first, second⟩
    exact absurd two (Nat.lt_irrefl 1)
  · obtain ⟨_, made, _, _, _, rfl⟩ := System.made_between reached out
    exact g.prints made

/-- Both ask; the first request and the reply to it stay in transit after they arrive. -/
def firstGreeted : List (Event Bool) :=
  [.client false, .client true, .serverReceive 0 true, .server, .server, .clientReceive 0 true, .client false]

theorem greets_one_firstGreeted : ∃ s,
    run (System.step Greeter.c.program) .start firstGreeted = some s ∧
    (s.clients false).printed = some (0, some (ascii "Hello Client!")) ∧
    (s.clients true).printed = none := by
  obtain ⟨s, ran⟩ : ∃ s, run (System.step Greeter.c.program) .start firstGreeted = some s := ⟨_, rfl⟩
  obtain ⟨text, out⟩ : ∃ text, (s.clients false).printed = some (0, text) := by
    obtain rfl := Option.some.inj ran
    exact ⟨_, rfl⟩
  obtain ⟨alone, greets⟩ := greets_one .c (reach_of_run ran)
  refine ⟨s, ran, ?_, ?_⟩
  · rw [out, greets false 0 text out]
    rfl
  · by_contra other
    cases alone false true (by rw [out]; exact Option.some_ne_none _) other

end DatagramReplies
