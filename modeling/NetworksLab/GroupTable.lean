import NetworksLab.GroupOrder

/-! The table of the group-chat server. Nothing checks `client_id` against its
size, so it is kept only as long as there are no more connections than rows. -/
namespace GroupChat
open CString Transition
open Chat (bufferLen)

/-- A connection comes in only while a row is free. -/
def rowFree (s : Server) : Event → Prop
  | .accept (some _) => s.accepted.length < maxNumClient
  | _ => True

/-- Every index used on `clients`, by the accept loop while it registers a
connection, by a thread through its pointer and by the loop of `shout`, is one of
the table, and the rows below `client_id` are those of the connections. -/
structure Server.InTable (s : Server) : Prop where
  counter : s.clientId ≤ maxNumClient
  registering : s.mainPc ≠ .accept → s.clientId < maxNumClient
  pointer : ∀ (k : Nat) (th : HearAll), s.threads[k]? = some th → th.cli < maxNumClient
  walking : ∀ (k : Nat) (th : HearAll) (w : Nat) (msg : Bytes), s.threads[k]? = some th →
    th.pc = .shout w msg → w < s.clientId → w < maxNumClient
  rows : ∀ i < s.clientId, ∃ fd, s.accepted[i]? = some fd ∧ s.clients[i]? = some ⟨i, fd⟩

theorem Server.registry_reach {ok : Server → Event → Prop} {s : Server}
    (reached : Reach Server.step ok .start s) : s.Registry :=
  reached.invariant registry_start fun _ _ _ inv _ step => inv.move (step_move step)

theorem Server.Registry.inTable {s : Server} (h : s.Registry)
    (bounded : s.accepted.length ≤ maxNumClient) : s.InTable where
  counter := by
    have count := h.acceptedCount
    omega
  registering := by
    intro busy
    have count := h.acceptedCount
    rw [if_neg busy] at count
    omega
  pointer := by
    intro k th at'
    obtain ⟨fd, conn, _⟩ := h.row at'
    rw [h.slots k th at']
    exact Nat.lt_of_lt_of_le (List.getElem?_eq_some_iff.mp conn).1 bounded
  walking := by
    intro k th w msg _ _ more
    exact Nat.lt_of_lt_of_le (h.walked more) bounded
  rows := by
    intro i below
    have conn := List.getElem?_eq_getElem (h.walked below)
    exact ⟨_, conn, h.rows i _ conn (.inl below)⟩

theorem Server.Registry.bounded {s : Server} (h : s.Registry) (table : s.InTable) :
    s.accepted.length ≤ maxNumClient := by
  rw [h.acceptedCount]
  by_cases idle : s.mainPc = .accept
  · rw [if_pos idle]
    exact table.counter
  · rw [if_neg idle]
    exact table.registering idle

/-- The table is kept in every run that takes a connection only while a row is
free; in any run at all it is kept exactly up to the tenth connection. -/
theorem table_bound (s : Server) :
    (Reach Server.step rowFree .start s → s.InTable) ∧
      (Reach Server.step anyStep .start s → (s.InTable ↔ s.accepted.length ≤ maxNumClient)) := by
  constructor
  · intro reached
    apply (Server.registry_reach reached).inTable
    apply reached.invariant (I := fun t => t.accepted.length ≤ maxNumClient) (Nat.zero_le _)
    intro t ev u bounded ok step
    refine (Server.step_move step).bounded ?_ bounded
    rintro fd rfl
    exact ok
  · intro reached
    have registry := Server.registry_reach reached
    exact ⟨registry.bounded, registry.inTable⟩

/-- Ten clients are registered and one more connects. -/
def eleventh : List Event :=
  (List.range maxNumClient).flatMap (fun fd => [.accept (some fd), .main, .main, .main,
    .create (zeros bufferLen), .main]) ++ [.accept (some maxNumClient)]

theorem eleventh_connects :
    (run Server.step .start eleventh).map (fun s => (s.mainPc, s.clientId)) =
      some (.setSockfd, maxNumClient) := by
  decide +kernel

theorem table_bound_eleventh : ¬ ∀ s, Reach Server.step anyStep .start s → s.InTable := by
  intro claim
  obtain ⟨s, reached, facts⟩ := Option.map_eq_some_iff.mp eleventh_connects
  obtain ⟨pc, count⟩ := Prod.mk.inj facts
  have inside := (claim s (reach_of_run reached)).registering (by rw [pc]; nofun)
  rw [count] at inside
  exact Nat.lt_irrefl _ inside

end GroupChat
