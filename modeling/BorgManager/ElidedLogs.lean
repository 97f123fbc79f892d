import Mathlib.Data.List.Basic

namespace BorgManager.ElidedLogs

variable {α : Type}

/-- The last `n` elements. -/
def lastN (n : Nat) (xs : List α) : List α := xs.drop (xs.length - n)

theorem length_lastN {n : Nat} {xs : List α} (h : n ≤ xs.length) : (lastN n xs).length = n := by
  simp only [lastN, List.length_drop]
  omega

theorem lastN_append_of_le {n : Nat} (xs : List α) {ys : List α} (h : n ≤ ys.length) :
    lastN n (xs ++ ys) = lastN n ys := by
  have hsplit : (xs ++ ys).length - n = xs.length + (ys.length - n) := by
    rw [List.length_append]
    omega
  rw [lastN, lastN, hsplit, List.drop_append]
  simp

theorem take_append_lastN (n : Nat) (xs : List α) : xs.take (xs.length - n) ++ lastN n xs = xs :=
  List.take_append_drop _ _

/-- The stream with everything between its first `h` elements and its last
`n` replaced by `marker`. -/
def elide (marker : List α) (h n : Nat) (xs : List α) : List α := xs.take h ++ marker ++ lastN n xs

/-- What a log may show of the stream `s`: all of it, or its first `h` elements,
one marker, and the end of the stream after some dropped middle part. -/
def Shows (marker : List α) (h : Nat) (s log : List α) : Prop :=
  log = s ∨ ∃ head dropped tail, head.length = h ∧ s = head ++ dropped ++ tail ∧ log = head ++ marker ++ tail

variable {marker : List α} {h : Nat} {s log : List α}

theorem Shows.refl (s : List α) : Shows marker h s s := .inl rfl

theorem Shows.append (hs : Shows marker h s log) (xs : List α) : Shows marker h (s ++ xs) (log ++ xs) := by
  rcases hs with rfl | ⟨head, dropped, tail, hlen, rfl, rfl⟩
  · exact .inl rfl
  · exact .inr ⟨head, dropped, tail ++ xs, hlen, by simp, by simp⟩

/-- Eliding again what is already elided moves only the end of the dropped
part: the old marker falls into it. -/
theorem Shows.elide (hs : Shows marker h s log) {n : Nat} (hroom : h + marker.length + n ≤ log.length) :
    Shows marker h s (elide marker h n log) := by
  right
  rcases hs with rfl | ⟨head, dropped, tail, hlen, rfl, rfl⟩
  · have hmiddle : log.take (log.length - n) = log.take h ++ (log.take (log.length - n)).drop h := by
      have htake : (log.take (log.length - n)).take h = log.take h := by
        rw [List.take_take]
        congr 1
        omega
      rw [← htake]
      exact (List.take_append_drop h _).symm
    refine ⟨log.take h, (log.take (log.length - n)).drop h, lastN n log, ?_, ?_, rfl⟩
    · rw [List.length_take]
      omega
    · rw [← hmiddle, take_append_lastN]
  · have hn : n ≤ tail.length := by
      simp only [List.length_append] at hroom
      omega
    refine ⟨head, dropped ++ tail.take (tail.length - n), lastN n tail, hlen, ?_, ?_⟩
    · simp only [List.append_assoc, take_append_lastN]
    · rw [ElidedLogs.elide, lastN_append_of_le _ hn, List.append_assoc head, List.take_left' hlen]

theorem length_elide {n : Nat} {xs : List α} (hroom : h + n ≤ xs.length) :
    (elide marker h n xs).length = h + marker.length + n := by
  rw [elide, List.length_append, List.length_append, length_lastN (by omega), List.length_take]
  omega

theorem take_elide {n k : Nat} {xs : List α} (hk : k ≤ h) (hh : h ≤ xs.length) :
    (elide marker h n xs).take k = xs.take k := by
  have hlen : k ≤ (xs.take h).length := by
    rw [List.length_take]
    omega
  rw [elide, List.append_assoc, List.take_append_of_le_length hlen, List.take_take, Nat.min_eq_left hk]

theorem map_elide {β : Type} (f : α → β) (n : Nat) (xs : List α) :
    (elide marker h n xs).map f = elide (marker.map f) h n (xs.map f) := by
  simp only [elide, lastN, List.map_append, List.map_take, List.map_drop, List.length_map]

theorem mem_elide {n : Nat} {xs : List α} {x : α} (hx : x ∈ elide marker h n xs) : x ∈ marker ∨ x ∈ xs := by
  rw [elide, List.mem_append, List.mem_append] at hx
  rcases hx with (hx | hx) | hx
  · exact .inr (List.mem_of_mem_take hx)
  · exact .inl hx
  · exact .inr (List.mem_of_mem_drop hx)

end BorgManager.ElidedLogs
