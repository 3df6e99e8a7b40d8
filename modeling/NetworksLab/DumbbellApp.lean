import Mathlib.Algebra.Order.Field.Rat
import NetworksLab.EventQueue
import NetworksLab.Transition

/-! The application that sends packets at a constant bit rate in the ns-3
scripts. The simulator is a parameter; time is exact. -/
namespace Dumbbell
open EventQueue Transition

/-- The member functions that the simulator calls back. -/
inductive Callback
  | startApplication | stopApplication | sendPkt
  deriving DecidableEq, Repr

variable {ι α : Type}

/-- `socket` tells whether `m_socket` is set; no event is `none`. -/
structure MyApp (ι α : Type) where
  socket : Bool
  peer : Option α
  packetSize : UInt32
  nPackets : UInt32
  dataRate : Nat
  sendEvent : Option ι
  running : Bool
  packetsSent : UInt32

def MyApp.new : MyApp ι α := ⟨false, none, 0, 0, 0, none, false, 0⟩

def MyApp.setup (app : MyApp ι α) (peer : α) (packetSize nPackets : UInt32) (dataRate : Nat) :
    MyApp ι α :=
  { app with socket := true, peer := some peer, packetSize, nPackets, dataRate }

inductive SocketCall (α : Type)
  | bind
  | connect (peer : Option α)
  | send (size : UInt32)
  | close
  deriving DecidableEq, Repr

variable {sim : Simulator ℚ Callback}

/-- The application in its simulator, with the calls made on its socket. -/
structure World (sim : Simulator ℚ Callback) (α : Type) where
  app : MyApp sim.Id α
  queue : sim.State
  calls : List (ℚ × SocketCall α)

def World.call (w : World sim α) (c : SocketCall α) : World sim α :=
  { w with calls := w.calls ++ [(sim.now w.queue, c)] }

/-- `Seconds (m_packetSize * 8 / static_cast<double> (m_dataRate.GetBitRate ()))`; the
product is taken in 32 bits. -/
def MyApp.tNext (app : MyApp ι α) : ℚ := (app.packetSize * 8).toNat / app.dataRate

def World.scheduleTx (w : World sim α) : World sim α :=
  if w.app.running then
    let scheduled := sim.schedule w.queue w.app.tNext .sendPkt
    { w with queue := scheduled.1, app := { w.app with sendEvent := some scheduled.2 } }
  else w

def World.sendPkt (w : World sim α) : World sim α :=
  let sent := w.call (.send w.app.packetSize)
  let counted := { sent with app := { sent.app with packetsSent := sent.app.packetsSent + 1 } }
  if counted.app.packetsSent < counted.app.nPackets then counted.scheduleTx else counted

def World.startApplication (w : World sim α) : World sim α :=
  let reset := { w with app := { w.app with running := true, packetsSent := 0 } }
  ((reset.call .bind).call (.connect w.app.peer)).sendPkt

/-- `if (m_sendEvent.IsRunning ()) Simulator::Cancel (m_sendEvent);`. -/
def World.cancelSend (w : World sim α) : World sim α :=
  match w.app.sendEvent with
  | none => w
  | some id => if sim.isRunning w.queue id then { w with queue := sim.cancel w.queue id } else w

def World.stopApplication (w : World sim α) : World sim α :=
  let cancelled := World.cancelSend { w with app := { w.app with running := false } }
  if cancelled.app.socket then cancelled.call .close else cancelled

def World.fire (w : World sim α) : Callback → World sim α
  | .startApplication => w.startApplication
  | .stopApplication => w.stopApplication
  | .sendPkt => w.sendPkt

/-- The simulator runs its next event. -/
def World.step (w : World sim α) (_ : Unit) : Option (World sim α) :=
  (sim.next w.queue).map fun p => { w with queue := p.2 }.fire p.1.callback

/-- The times of the packets sent. -/
def World.sends (w : World sim α) : List ℚ :=
  w.calls.filterMap fun
    | (time, .send _) => some time
    | _ => none

/-- The application after `setup`, in a simulator whose events are its start and
its stop. -/
def World.ready (queue : sim.State) (peer : α) (packetSize nPackets : UInt32) (dataRate : Nat) :
    World sim α where
  app := MyApp.new.setup peer packetSize nPackets dataRate
  queue := queue
  calls := []

/-- One packet at `start`, and one at `start + k * delay` for every `k` below
`nPackets` that falls before `stop`. -/
def schedule (start stop delay : ℚ) (nPackets : Nat) : List ℚ :=
  start :: ((List.range nPackets).filter fun k : Nat => 1 ≤ k ∧ start + k * delay < stop).map
    fun k : Nat => start + k * delay

end Dumbbell
