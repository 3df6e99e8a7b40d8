import NetworksLab.GroupServer
import NetworksLab.Slots

/-! What the accept loop and the threads agree on at every moment: which slot
belongs to which connection, which thread holds the mutex, and what the shout
in progress is sending. -/
namespace GroupChat
open CString Transition
open Chat (bufferLen)

/-- The slot of the newest connection is written. -/
def MainPc.filled : MainPc → Bool
  | .greet | .create | .incr => true
  | _ => false

/-- Past the statements that read the slot. -/
def HearAllPc.loaded : HearAllPc → Bool
  | .loadSockfd | .loadId => false
  | _ => true

def HearAllPc.inShout : HearAllPc → Bool
  | .shout _ _ | .unlock => true
  | _ => false

structure Server.Registry (s : Server) : Prop where
  size : s.clients.length = maxNumClient
  nodup : s.accepted.Nodup
  acceptedCount : s.accepted.length = s.clientId + if s.mainPc = .accept then 0 else 1
  threadCount : s.threads.length = s.clientId + if s.mainPc = .incr then 1 else 0
  newest : s.mainPc ≠ .accept → s.accepted[s.clientId]? = some s.newsockfd
  half : s.mainPc = .setId → ∃ c, s.clients[s.clientId]? = some c ∧ c.sockfd = s.newsockfd
  rows : ∀ i fd : Nat, s.accepted[i]? = some fd → i < s.clientId ∨ s.mainPc.filled = true →
    s.clients[i]? = some ⟨i, fd⟩
  slots : ∀ (k : Nat) (th : HearAll), s.threads[k]? = some th → th.cli = k
  sockets : ∀ (k : Nat) (th : HearAll), s.threads[k]? = some th → th.pc ≠ .loadSockfd →
    s.accepted[k]? = some th.sockfd
  ids : ∀ (k : Nat) (th : HearAll), s.threads[k]? = some th → th.pc.loaded = true → th.id = k

/-- A thread's slot is written before the thread exists. -/
theorem Server.Registry.row {s : Server} (h : s.Registry) {k : Nat} {th : HearAll}
    (at' : s.threads[k]? = some th) :
    ∃ fd, s.accepted[k]? = some fd ∧ s.clients[k]? = some ⟨k, fd⟩ := by
  have below : k < s.threads.length := (List.getElem?_eq_some_iff.mp at').1
  have threads := h.threadCount
  have accepted := h.acceptedCount
  by_cases incr : s.mainPc = .incr
  · have inside : k < s.accepted.length := by simp only [incr] at threads accepted; simp at *; omega
    have conn := List.getElem?_eq_getElem inside
    exact ⟨_, conn, h.rows k _ conn (.inr (by simp [incr, MainPc.filled]))⟩
  · rw [if_neg incr] at threads
    have inside : k < s.accepted.length := by omega
    have conn := List.getElem?_eq_getElem inside
    exact ⟨_, conn, h.rows k _ conn (.inl (by omega))⟩

theorem Server.Registry.walked {s : Server} (h : s.Registry) {w : Nat} (more : w < s.clientId) :
    w < s.accepted.length := by
  rw [h.acceptedCount]
  omega

/-- The loop of `shout` stays inside the table and finds the connection of its slot. -/
theorem Server.Registry.slot {s : Server} (h : s.Registry) {w : Nat} (more : w < s.clientId) :
    ∃ c, s.clients[w]? = some c ∧ s.accepted[w]? = some c.sockfd := by
  have conn := List.getElem?_eq_getElem (h.walked more)
  exact ⟨_, h.rows w _ conn (.inl more), conn⟩

theorem Server.Registry.sockfd_slot {s : Server} (h : s.Registry) {w : Nat} {c : Client}
    (more : w < s.clientId) (at' : s.clients[w]? = some c) : s.accepted[w]? = some c.sockfd := by
  obtain ⟨c', row, conn⟩ := h.slot more
  obtain rfl := Option.some.inj (at'.symm.trans row)
  exact conn

theorem Server.Registry.slot_ne_none {s : Server} (h : s.Registry) {w : Nat}
    (more : w < s.clientId) : s.clients[w]? ≠ none := by
  obtain ⟨c, row, _⟩ := h.slot more
  rw [row]
  nofun

/-- The table, the counter and the accept loop are as before. -/
structure Server.SameMain (s t : Server) : Prop where
  clients : t.clients = s.clients
  clientId : t.clientId = s.clientId
  mainPc : t.mainPc = s.mainPc
  newsockfd : t.newsockfd = s.newsockfd
  accepted : t.accepted = s.accepted

theorem Server.sameMain_put (s : Server) (k : Nat) (th : HearAll) (sends : List (Nat × Bytes))
    (log : List Entry) (shouting : Option Nat) :
    s.SameMain { s.put k th with sends, log, shouting } := ⟨rfl, rfl, rfl, rfl, rfl⟩

/-- A step of thread `k` leaves the registry alone as long as the thread keeps
its slot and what it has read from it. -/
theorem Server.Registry.put {s t : Server} (h : s.Registry) {k : Nat} {th th' : HearAll}
    (same : s.SameMain t) (threads : t.threads = s.threads.set k th')
    (at' : s.threads[k]? = some th) (cli : th'.cli = th.cli)
    (sockfd : th'.pc ≠ .loadSockfd → s.accepted[k]? = some th'.sockfd)
    (id : th'.pc.loaded = true → th'.id = k) : t.Registry where
  size := same.clients ▸ h.size
  nodup := same.accepted ▸ h.nodup
  acceptedCount := by rw [same.accepted, same.clientId, same.mainPc]; exact h.acceptedCount
  threadCount := by
    rw [threads, List.length_set, same.clientId, same.mainPc]; exact h.threadCount
  newest := by
    rw [same.mainPc, same.accepted, same.clientId, same.newsockfd]; exact h.newest
  half := by rw [same.mainPc, same.clients, same.clientId, same.newsockfd]; exact h.half
  rows := by rw [same.accepted, same.clientId, same.mainPc, same.clients]; exact h.rows
  slots := by rw [threads]; exact Slots.forall_set h.slots (cli.trans (h.slots k th at'))
  sockets := by rw [threads, same.accepted]; exact Slots.forall_set h.sockets sockfd
  ids := by rw [threads]; exact Slots.forall_set h.ids id

/-- As `put`, for a thread that has read its slot. -/
theorem Server.Registry.putLoaded {s t : Server} (h : s.Registry) {k : Nat} {th th' : HearAll}
    (same : s.SameMain t) (threads : t.threads = s.threads.set k th')
    (at' : s.threads[k]? = some th) (loaded : th.pc.loaded = true) (cli : th'.cli = th.cli)
    (sockfd : th'.sockfd = th.sockfd) (id : th'.id = th.id) : t.Registry := by
  refine h.put same threads at' cli (fun _ => ?_) fun _ => id.trans (h.ids k th at' loaded)
  rw [sockfd]
  exact h.sockets k th at' fun unread => by simp [unread, HearAllPc.loaded] at loaded

theorem Server.registry_start : Server.start.Registry where
  size := rfl
  nodup := .nil
  acceptedCount := rfl
  threadCount := rfl
  newest no := absurd rfl no
  half := nofun
  rows := nofun
  slots := nofun
  sockets := nofun
  ids := nofun

/-- The accept loop: it writes only slot `client_id`, and only while that slot
belongs to no thread. -/
theorem Server.Registry.accept {s : Server} (h : s.Registry) {fd : Nat}
    (pc : s.mainPc = .accept) (fresh : fd ∉ s.accepted) :
    Server.Registry { s with
      newsockfd := fd, accepted := s.accepted ++ [fd], mainPc := .setSockfd } := by
  have count : s.accepted.length = s.clientId := by simpa [pc] using h.acceptedCount
  have older : ∀ i, i < s.clientId → (s.accepted ++ [fd])[i]? = s.accepted[i]? := fun i hi =>
    List.getElem?_append_left (count ▸ hi)
  have threads : s.threads.length = s.clientId := by simpa [pc] using h.threadCount
  refine { h with
    nodup := ?_, acceptedCount := ?_, threadCount := ?_, newest := ?_, half := nofun, rows := ?_
    sockets := ?_ }
  · exact List.nodup_append.mpr ⟨h.nodup, by simp, fun a ha b hb => by
      rw [List.mem_singleton.mp hb]; exact fun same => fresh (same ▸ ha)⟩
  · simp [count]
  · simpa using threads
  · intro _
    simp [← count]
  · intro i fd' conn inside
    have hi : i < s.clientId := inside.resolve_right (by simp [MainPc.filled])
    exact h.rows i fd' ((older i hi).symm.trans conn) (.inl hi)
  · intro k th at' loaded
    have below : k < s.threads.length := (List.getElem?_eq_some_iff.mp at').1
    exact (older k (threads ▸ below)).trans (h.sockets k th at' loaded)

theorem Server.Registry.setSockfd {s : Server} (h : s.Registry) {c : Client}
    (pc : s.mainPc = .setSockfd) (slot : s.clients[s.clientId]? = some c) :
    Server.Registry { s with
      clients := s.clients.set s.clientId { c with sockfd := s.newsockfd }, mainPc := .setId } := by
  have inside : s.clientId < s.clients.length := (List.getElem?_eq_some_iff.mp slot).1
  refine { h with
    size := (List.length_set ..).trans h.size, acceptedCount := ?_, threadCount := ?_
    newest := fun _ => h.newest (by simp [pc]), half := fun _ => ?_, rows := ?_ }
  · simpa [pc] using h.acceptedCount
  · simpa [pc] using h.threadCount
  · exact ⟨_, List.getElem?_set_self inside, rfl⟩
  · intro i fd conn below
    have hi : i < s.clientId := below.resolve_right (by simp [MainPc.filled])
    exact (List.getElem?_set_ne (by omega)).trans (h.rows i fd conn (.inl hi))

theorem Server.Registry.setId {s : Server} (h : s.Registry) {c : Client}
    (pc : s.mainPc = .setId) (slot : s.clients[s.clientId]? = some c) :
    Server.Registry { s with
      clients := s.clients.set s.clientId { c with id := s.clientId }, mainPc := .greet } := by
  have inside : s.clientId < s.clients.length := (List.getElem?_eq_some_iff.mp slot).1
  have count : s.accepted.length = s.clientId + 1 := by simpa [pc] using h.acceptedCount
  have newest := h.newest (by simp [pc])
  refine { h with
    size := (List.length_set ..).trans h.size, acceptedCount := ?_, threadCount := ?_
    newest := fun _ => newest, half := nofun, rows := ?_ }
  · simpa using count
  · simpa [pc] using h.threadCount
  · intro i fd conn _
    have below : i < s.accepted.length := (List.getElem?_eq_some_iff.mp conn).1
    by_cases last : i = s.clientId
    · subst i
      obtain ⟨c', slot', sockfd⟩ := h.half pc
      obtain rfl : c = c' := Option.some.inj (slot.symm.trans slot')
      obtain rfl : fd = s.newsockfd := Option.some.inj (conn.symm.trans newest)
      rw [List.getElem?_set_self inside, sockfd]
    · exact (List.getElem?_set_ne (Ne.symm last)).trans (h.rows i fd conn (.inl (by omega)))

theorem Server.Registry.create {s : Server} (h : s.Registry) {stack : Bytes}
    (pc : s.mainPc = .create) : Server.Registry { s with
      threads := s.threads ++ [{ cli := s.clientId, buffer := stack }], mainPc := .incr } := by
  have count : s.threads.length = s.clientId := by simpa [pc] using h.threadCount
  refine { h with
    acceptedCount := ?_, threadCount := ?_, newest := fun _ => h.newest (by simp [pc])
    half := nofun, rows := ?_, slots := Slots.forall_concat h.slots count.symm
    sockets := Slots.forall_concat h.sockets fun no => absurd rfl no
    ids := Slots.forall_concat h.ids nofun }
  · simpa [pc] using h.acceptedCount
  · simp [count]
  · exact fun i fd conn _ => h.rows i fd conn (.inr (by simp [pc, MainPc.filled]))

theorem Server.Registry.incr {s : Server} (h : s.Registry) (pc : s.mainPc = .incr) :
    Server.Registry { s with clientId := s.clientId + 1, mainPc := .accept } := by
  refine { h with
    acceptedCount := ?_, threadCount := ?_, newest := fun no => absurd rfl no, half := nofun
    rows := ?_ }
  · simpa [pc] using h.acceptedCount
  · simpa [pc] using h.threadCount
  · exact fun i fd conn _ => h.rows i fd conn (.inr (by simp [pc, MainPc.filled]))

theorem Server.Registry.move {s t : Server} {e : Event} (h : s.Registry) (move : Move s e t) :
    t.Registry := by
  cases move with
  | exit => exact { h with }
  | accept pc fresh => exact h.accept pc fresh
  | overrun pc past =>
      refine { h with
        acceptedCount := ?_, threadCount := ?_, newest := ?_, half := nofun, rows := ?_ }
      · rcases pc with pc | pc <;> simpa [pc] using h.acceptedCount
      · rcases pc with pc | pc <;> simpa [pc] using h.threadCount
      · exact fun _ => h.newest (by rcases pc with pc | pc <;> simp [pc])
      · exact fun i fd conn below =>
          h.rows i fd conn (.inl (below.resolve_right (by simp [MainPc.filled])))
  | setSockfd pc slot => exact h.setSockfd pc slot
  | setId pc slot => exact h.setId pc slot
  | greet pc =>
      refine { h with
        acceptedCount := ?_, threadCount := ?_, newest := fun _ => h.newest (by simp [pc])
        half := nofun, rows := ?_ }
      · simpa [pc] using h.acceptedCount
      · simpa [pc] using h.threadCount
      · exact fun i fd conn _ => h.rows i fd conn (.inr (by simp [pc, MainPc.filled]))
  | create pc _ => exact h.create pc
  | incr pc => exact h.incr pc
  | @loadSockfd k th c at' pc slot =>
      obtain ⟨fd, conn, row⟩ := h.row at'
      rw [h.slots k th at', row, Option.some.injEq] at slot
      subst slot
      exact h.put (s.sameMain_put ..) rfl at' rfl (fun _ => conn) nofun
  | @loadId k th c at' pc slot =>
      obtain ⟨fd, conn, row⟩ := h.row at'
      rw [h.slots k th at', row, Option.some.injEq] at slot
      subst slot
      exact h.put (s.sameMain_put ..) rfl at' rfl
        (fun _ => h.sockets k th at' (by simp [pc])) fun _ => rfl
  | wildLoad at' pc past =>
      obtain ⟨fd, _, row⟩ := h.row at'
      rw [h.slots _ _ at', row] at past
      cases past
  | recv at' pc | lock at' pc | relay at' pc | skip at' pc | endShout at' pc | unlock at' pc
  | wildText at' pc | wildSlot at' pc =>
      exact h.putLoaded (s.sameMain_put ..) rfl at' (by simp [pc, HearAllPc.loaded]) rfl rfl rfl

end GroupChat
