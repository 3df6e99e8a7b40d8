import NetworksLab.GroupDeparture

/-! Nobody waits for the mutex in vain. A shout in progress comes to its end by its
own thread's steps, and a thread that waits with a frame can then be the next. -/
namespace GroupChat
open CString Transition OrderedLog
open Chat (bufferLen)

variable {s t : Server} {k i : Nat} {th : HearAll} {msg : Bytes}

/-- No thread has come to a statement without meaning. -/
def Server.Tame (s : Server) : Prop :=
  ∀ (k : Nat) (th : HearAll), s.threads[k]? = some th → th.pc ≠ .wild

/-- A thread at the mutex has a string in its buffer. -/
theorem Server.Ordered.readable (h : s.Ordered) (here : s.threads[k]? = some th)
    (pc : th.pc = .lock) : wholeFrame th.buffer := by
  obtain ⟨stack, accounted⟩ := h.accounted.threads k th here
  have frames := h.whole k th here
  obtain ⟨got, mem⟩ := List.exists_mem_of_ne_nil _ (accounted.pending pc)
  rw [accounted.buffer]
  refine foldl_store_whole accounted.size (fun got mem => .inl (frames got mem)) (.inr ⟨got, mem, ?_⟩)
  rintro rfl
  cases (frames [] mem).1

theorem Server.Tame.move {e : Event} (h : s.Tame) (ordered : s.Ordered) (move : Move s e t) :
    t.Tame := by
  cases move with
  | exit | accept | overrun | setSockfd | setId | greet | incr => exact h
  | create => exact Slots.forall_concat h (by simp)
  | loadSockfd | loadId | recv | lock | relay | skip | endShout | unlock =>
      exact Slots.forall_set h (by simp)
  | wildLoad at' _ past =>
      obtain ⟨fd, _, row⟩ := ordered.registry.row at'
      rw [ordered.registry.slots _ _ at', row] at past
      cases past
  | wildText at' pc _ str =>
      rw [read_of_mem (ordered.readable at' pc).2] at str
      cases str
  | wildSlot _ _ more past => exact absurd past (ordered.registry.slot_ne_none more)

theorem Server.tame (reached : Reach Server.step ordinary .start s) : s.Tame := by
  have both : s.Ordered ∧ s.Tame := by
    apply reached.invariant (I := fun s => s.Ordered ∧ s.Tame) ⟨ordered_start, nofun⟩
    intro t e u inv ok step
    exact ⟨inv.1.step ok step, inv.2.move inv.1 (step_move step)⟩
  exact both.2

end GroupChat
