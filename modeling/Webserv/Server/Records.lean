import Webserv.Server.Dispatch

/-!
# Following the clients through a run

A property of a client that looks at the log (`Recorded`) is kept by a step that changes one client and
logs calls about its connection only, if the client that is changed keeps it. These are the rules for
the kinds of steps: none of the clients changes, one of them does, one is accepted, and one is taken out
of its slot.
-/

namespace Webserv.Server

open IndexedVector

variable {T : List Call → Client → Prop} {s s' : Server} {i : ℕ} {c c' last : Client}

/-- A property of the log and a client holds of every live client. -/
def Recorded (T : List Call → Client → Prop) (s : Server) : Prop := ∀ c ∈ s.clients, T s.calls c

theorem recorded_empty : Recorded T empty := fun _ hc => nomatch hc

/-- No client changes. -/
theorem Recorded.congr (h : Recorded T s) (hclients : s'.clients = s.clients)
    (hkeep : ∀ c ∈ s.clients, T s.calls c → T s'.calls c) : Recorded T s' := by
  intro c hc
  rw [hclients] at hc
  exact hkeep c hc (h c hc)

/-- One client changes. -/
theorem Recorded.set (h : Recorded T s) (hs : s.Good) (hi : s.clients[i]? = some c)
    (hclients : s'.clients = s.clients.set i c') (hown : T s.calls c → T s'.calls c')
    (hkeep : ∀ d, d.clientFd ≠ c.clientFd → T s.calls d → T s'.calls d) : Recorded T s' := by
  intro d hd
  rw [hclients] at hd
  obtain ⟨j, hj⟩ := List.mem_iff_getElem?.1 hd
  rcases getElem?_set_cases hj with ⟨rfl, rfl⟩ | ⟨hne, hj⟩
  · exact hown (h c (List.mem_of_getElem? hi))
  · exact hkeep d (hs.clientFd_ne_of_ne hi hj hne) (h d (List.mem_of_getElem? hj))

/-- A client is accepted. -/
theorem Recorded.accept (h : Recorded T s) (hclients : s'.clients = s.clients ++ [c]) (hnew : T s'.calls c)
    (hkeep : ∀ d ∈ s.clients, T s.calls d → T s'.calls d) : Recorded T s' := by
  intro d hd
  rw [hclients] at hd
  rcases List.mem_append.1 hd with hd | hd
  · exact hkeep d hd (h d hd)
  · rw [List.mem_singleton.1 hd]
    exact hnew

/-- A client is taken out, and the last one is moved to its slot. -/
theorem Recorded.erase (h : Recorded T s) (hlast : s.clients.getLast? = some last)
    (hclients : s'.clients = (s.clients.set i (c.assign last)).dropLast)
    (hmoved : T s.calls last → T s'.calls (c.assign last))
    (hkeep : ∀ d ∈ s.clients, T s.calls d → T s'.calls d) : Recorded T s' := by
  intro d hd
  rw [hclients] at hd
  rcases mem_of_mem_removed hd with hd | rfl
  · exact hkeep d hd (h d hd)
  · exact hmoved (h last (List.mem_of_getLast? hlast))

/-- The descriptor of a new connection is not the one of a client. -/
theorem Good.clientFd_ne_of_canOpen (hs : s.Good) {fd : ℤ} (hopen : s.CanOpen fd) (hc : c ∈ s.clients) :
    c.clientFd ≠ fd := by
  obtain ⟨j, hj⟩ := List.mem_iff_getElem?.1 hc
  rintro rfl
  exact hs.notMem_of_canOpen hopen (hs.held j c .client hj (hs.clientFd_ne hj)).1.1

end Webserv.Server
