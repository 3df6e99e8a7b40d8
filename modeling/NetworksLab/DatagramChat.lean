import Mathlib.Tactic.Common
import NetworksLab.Transition

/-! The chat of `UDPServer` and `UDPClient` with UTF-8 as the charset. Each
datagram is received into a fresh array of 1024 bytes, and the string is built
from the whole array. No datagram is lost and both consoles go on for ever. -/
namespace DatagramChat
open Transition

/-- A line as its characters; a console hands out no lone surrogates. -/
abbrev Text := List Char

abbrev Bytes := List UInt8

def logout : Text := "logout".toList

/-- `new byte[1024]`. -/
def arrayLength : Nat := 1024

def getBytes (text : Text) : Bytes := text.flatMap String.utf8EncodeChar

/-- `receivePacket.getData()` after `receive`: the datagram, cut to the array, and
the zeros behind it. -/
def getData (datagram : Bytes) : Bytes :=
  datagram.take arrayLength ++ List.replicate (arrayLength - datagram.length) 0

/-- `new String(bytes)`, of which nothing is specified for bytes that are not UTF-8:
`malformed` says what it makes of them. -/
def newString (malformed : Bytes → Text) (bytes : Bytes) : Text :=
  (bytes.toByteArray.utf8Decode?.map Array.toList).getD (malformed bytes)

/-- The statement next to run; `test` is the `if` at the end of the loop. -/
inductive Pc
  | readLine
  | send
  | receive
  | test
  | done
  deriving DecidableEq

/-- One end: `typed` and `received` are its two strings, `reads` counts the lines
taken from its console, `printed` holds the strings received so far. -/
structure End where
  pc : Pc
  typed : Text
  received : Text
  reads : Nat
  printed : List Text
  deriving DecidableEq

structure Session where
  client : End
  server : End
  toServer : List Bytes
  toClient : List Bytes
  deriving DecidableEq

def Session.start : Session := ⟨⟨.readLine, [], [], 0, []⟩, ⟨.receive, [], [], 0, []⟩, [], []⟩

def End.readLine (e : End) (console : Nat → Text) : End :=
  { e with pc := .send, typed := console e.reads, reads := e.reads + 1 }

def End.receive (e : End) (text : Text) (next : Pc) : End :=
  { e with pc := next, received := text, printed := e.printed ++ [text] }

/-- `if (received.equals("logout") || typed.equals("logout")) break`. -/
def End.test (e : End) (first : Pc) : End :=
  { e with pc := if e.received = logout ∨ e.typed = logout then .done else first }

section Steps

variable (malformed : Bytes → Text)

/-- `UDPClient`: its line goes out before one comes in. -/
def Session.clientStep (lines : Nat → Text) (s : Session) : Option Session :=
  match s.client.pc with
  | .readLine => some { s with client := s.client.readLine lines }
  | .send => some { s with
      client := { s.client with pc := .receive }
      toServer := s.toServer ++ [getBytes s.client.typed] }
  | .receive =>
      match s.toClient with
      | [] => none
      | d :: queue => some { s with
          client := s.client.receive (newString malformed (getData d)) .test
          toClient := queue }
  | .test => some { s with client := s.client.test .readLine }
  | .done => none

/-- `UDPServer`: a line comes in before its own goes out. -/
def Session.serverStep (lines : Nat → Text) (s : Session) : Option Session :=
  match s.server.pc with
  | .receive =>
      match s.toServer with
      | [] => none
      | d :: queue => some { s with
          server := s.server.receive (newString malformed (getData d)) .readLine
          toServer := queue }
  | .readLine => some { s with server := s.server.readLine lines }
  | .send => some { s with
      server := { s.server with pc := .test }
      toClient := s.toClient ++ [getBytes s.server.typed] }
  | .test => some { s with server := s.server.test .receive }
  | .done => none

inductive Event
  | client
  | server
  deriving DecidableEq

/-- The chat in which the client types `c` and the server `s`. -/
def Session.step (c s : Nat → Text) (t : Session) : Event → Option Session
  | .client => t.clientStep malformed c
  | .server => t.serverStep malformed s

end Steps

/-- The text is encoded in at most the array's length. -/
def Fits (text : Text) : Prop := (getBytes text).length ≤ arrayLength

instance (text : Text) : Decidable (Fits text) := inferInstanceAs (Decidable (_ ≤ _))

/-- The text with the zeros of the array behind it. -/
def padded (text : Text) : Text :=
  text ++ List.replicate (arrayLength - (getBytes text).length) (Char.ofNat 0)

variable {malformed : Bytes → Text} {text : Text}

theorem getBytes_append (a b : Text) : getBytes (a ++ b) = getBytes a ++ getBytes b :=
  List.flatMap_append

theorem getBytes_zeros (n : Nat) :
    getBytes (List.replicate n (Char.ofNat 0)) = List.replicate n 0 := by
  induction n with
  | zero => rfl
  | succ n ih =>
      rw [List.replicate_succ, List.replicate_succ, getBytes, List.flatMap_cons]
      exact congrArg (0 :: ·) ih

theorem newString_getBytes (text : Text) : newString malformed (getBytes text) = text := by
  have decoded : (getBytes text).toByteArray.utf8Decode? = some text.toArray :=
    List.utf8Decode?_utf8Encode
  rw [newString, decoded, Option.map_some, Option.getD_some]

theorem getBytes_padded (fits : Fits text) : getBytes (padded text) = getData (getBytes text) := by
  rw [padded, getBytes_append, getBytes_zeros, getData, List.take_of_length_le fits]

/-- The string built from the array is the text and the zeros. -/
theorem newString_getData (fits : Fits text) :
    newString malformed (getData (getBytes text)) = padded text := by
  rw [← getBytes_padded fits, newString_getBytes]

theorem getData_length (datagram : Bytes) : (getData datagram).length = arrayLength := by
  rw [getData, List.length_append, List.length_take, List.length_replicate]
  omega

/-- No text is received as "logout": the array is too long for it. -/
theorem padded_ne_logout (fits : Fits text) : padded text ≠ logout := by
  intro same
  have whole : (getBytes logout).length = arrayLength := by
    rw [← same, getBytes_padded fits, getData_length]
  revert whole
  decide

end DatagramChat
