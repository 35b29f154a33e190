namespace ChipEight

/-- Return addresses. The first `depth` slots are the open calls, oldest first; the others keep
what earlier calls left there. -/
@[ext]
structure CallStack where
  slots : Vector UInt16 16
  depth : Fin 17
  deriving DecidableEq

namespace CallStack

def empty : CallStack := ⟨Vector.replicate 16 0, 0⟩

/-- The open calls, oldest first. -/
def frames (s : CallStack) : List UInt16 := s.slots.toList.take s.depth

/-- The slot of the latest open call. -/
def top? (s : CallStack) : Option (Fin 16) :=
  if h : 0 < s.depth.val then some ⟨s.depth - 1, by omega⟩ else none

/-- Fails when all slots are in use. -/
def push? (s : CallStack) (address : UInt16) : Option CallStack :=
  if h : s.depth.val < 16 then
    some ⟨s.slots.set s.depth address h, ⟨s.depth + 1, by omega⟩⟩
  else none

/-- Takes the latest open call away. Its slot keeps the address. -/
def pop? (s : CallStack) : Option (UInt16 × CallStack) :=
  s.top?.map fun i => (s.slots[i], { s with depth := i.castSucc })

theorem top?_eq_some {s : CallStack} {k : Fin 16} :
    s.top? = some k ↔ s.depth.val = k.val + 1 := by
  unfold top?
  split
  · rw [Option.some_inj, Fin.ext_iff]
    simp only
    omega
  · simp
    omega

theorem top?_eq_none {s : CallStack} : s.top? = none ↔ s.depth.val = 0 := by
  unfold top?
  split
  · simp
    omega
  · simp
    omega

theorem push?_eq_none {s : CallStack} {a : UInt16} : s.push? a = none ↔ s.depth.val = 16 := by
  unfold push?
  split
  · simp
    omega
  · simp
    omega

theorem pop?_eq_none {s : CallStack} : s.pop? = none ↔ s.depth.val = 0 := by
  rw [pop?, Option.map_eq_none_iff, top?_eq_none]

theorem frames_length (s : CallStack) : s.frames.length = s.depth := by
  simp only [frames, List.length_take, Vector.length_toList]
  omega

theorem frames_push? {s t : CallStack} {a : UInt16} (h : s.push? a = some t) :
    t.frames = s.frames ++ [a] := by
  unfold push? at h
  split at h
  · rename_i hd
    cases h
    simp only [frames, Vector.toList_set]
    rw [List.take_succ_eq_append_getElem (by simpa using hd), List.take_set_of_le (Nat.le_refl _)]
    simp
  · cases h

theorem frames_pop? {s t : CallStack} {a : UInt16} (h : s.pop? = some (a, t)) :
    s.frames = t.frames ++ [a] := by
  obtain ⟨i, hi, h⟩ := Option.map_eq_some_iff.1 h
  cases h
  unfold top? at hi
  split at hi
  · rename_i hd
    cases hi
    have hlen : s.depth.val - 1 < s.slots.toList.length := by simp; omega
    have hs := List.take_succ_eq_append_getElem hlen
    rw [show s.depth.val - 1 + 1 = s.depth.val by omega] at hs
    simpa [frames] using hs
  · cases hi

theorem depth_push? {s t : CallStack} {a : UInt16} (h : s.push? a = some t) :
    t.depth.val = s.depth.val + 1 := by
  rw [← frames_length, ← frames_length, frames_push? h, List.length_append, List.length_singleton]

theorem depth_pop? {s t : CallStack} {a : UInt16} (h : s.pop? = some (a, t)) :
    s.depth.val = t.depth.val + 1 := by
  rw [← frames_length, ← frames_length, frames_pop? h, List.length_append, List.length_singleton]

theorem slots_push? {s t : CallStack} {a : UInt16} (h : s.push? a = some t) {k : Nat}
    (hk : k ≠ s.depth.val) : t.slots[k]? = s.slots[k]? := by
  unfold push? at h
  split at h
  · rename_i hdepth
    cases h
    exact Vector.getElem?_set_ne hdepth hk.symm
  · cases h

theorem slots_pop? {s t : CallStack} {a : UInt16} (h : s.pop? = some (a, t)) :
    t.slots = s.slots := by
  obtain ⟨k, -, hpair⟩ := Option.map_eq_some_iff.1 h
  cases hpair
  rfl

theorem getLast?_frames {s : CallStack} {k : Nat} (h : s.depth.val = k + 1) :
    s.frames.getLast? = s.slots[k]? := by
  have hk : k < s.slots.toList.length := by
    rw [Vector.length_toList]
    omega
  rw [frames, h, List.take_succ_eq_append_getElem hk, List.getLast?_concat]
  simp

end CallStack

end ChipEight
