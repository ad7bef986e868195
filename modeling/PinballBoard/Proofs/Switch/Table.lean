import Mathlib.Data.List.Induction
import Mathlib.Data.List.Nodup
import PinballBoard.Switch.Table

/-!
# Tables that are read switch by switch

A host that reads all switches in turn learns one state after the other. As no address stands twice
in `Switch.all`, no state that has been read is lost again, and as every place of the table is the
place of an address, nothing is left open: the table is the list of the states, in the order in
which they have been read (`SwitchTable.learn_all`).

## Learning twice

Of each switch a table knows what it has learnt last (`SwitchTable.get?_learn_eq_or`). So it does no
harm to learn a second time what is known already, as long as all that has been learnt since is
learnt again as well (`SwitchTable.learn_learn_append`).
-/

namespace PinballBoard

namespace Switch

theorem length_all : all.length = 64 := by decide

theorem nodup_all : all.Nodup := by decide

private theorem index_all : ∀ i : Fin all.length, (all[i].index : Nat) = i := by decide

theorem index_getElem_all {i : Nat} (hi : i < all.length) : (all[i].index : Nat) = i :=
  index_all ⟨i, hi⟩

end Switch

namespace SwitchTable

/-- Learn the states of some switches, one after the other. -/
def learn (t : SwitchTable) (states : List (Switch × Bool)) : SwitchTable :=
  states.foldl (fun t state ↦ t.insert state.1 state.2) t

theorem learn_cons (t : SwitchTable) (s : Switch) (active : Bool)
    (states : List (Switch × Bool)) :
    t.learn ((s, active) :: states) = (t.insert s active).learn states := rfl

theorem learn_append (t : SwitchTable) (states more : List (Switch × Bool)) :
    t.learn (states ++ more) = (t.learn states).learn more := List.foldl_append

theorem get?_learn_of_not_mem {switches : List Switch} {s : Switch} (h : s ∉ switches)
    (states : List Bool) (t : SwitchTable) :
    (t.learn (switches.zip states)).get? s = t.get? s := by
  induction switches generalizing states t with
  | nil => rfl
  | cons u switches ih =>
    rw [List.mem_cons, not_or] at h
    cases states with
    | nil => rfl
    | cons active states =>
      rw [List.zip_cons_cons, learn_cons, ih h.2, get?_insert_of_ne t active h.1]

theorem get?_learn {switches : List Switch} (hnodup : switches.Nodup) (states : List Bool)
    (t : SwitchTable) {i : Nat} (hi : i < switches.length) (hstates : i < states.length) :
    (t.learn (switches.zip states)).get? switches[i] = some states[i] := by
  induction switches generalizing states t i with
  | nil => exact absurd hi (Nat.not_lt_zero i)
  | cons u switches ih =>
    obtain ⟨hmem, hnodup⟩ := List.nodup_cons.mp hnodup
    cases states with
    | nil => exact absurd hstates (Nat.not_lt_zero i)
    | cons active states =>
      rw [List.zip_cons_cons, learn_cons]
      cases i with
      | zero =>
        -- what is learnt later concerns other switches
        rw [List.getElem_cons_zero, List.getElem_cons_zero, get?_learn_of_not_mem hmem,
          get?_insert_self]
      | succ i =>
        rw [List.getElem_cons_succ, List.getElem_cons_succ]
        exact ih hnodup states _ (Nat.lt_of_succ_lt_succ hi) (Nat.lt_of_succ_lt_succ hstates)

/-- **A full reading.** Who reads all switches in turn knows of each what has been read. -/
theorem learn_all (states : Vector Bool 64) :
    empty.learn (Switch.all.zip states.toList) = ⟨states.map some⟩ := by
  have hcells : (empty.learn (Switch.all.zip states.toList)).cells = states.map some := by
    ext i hi : 1
    have hall : i < Switch.all.length := Switch.length_all ▸ hi
    have hget := get?_learn Switch.nodup_all states.toList empty hall (by simpa using hi)
    simpa [get?, Switch.index_getElem_all hall] using hget
  rw [← hcells]

/-! ## Learning twice -/

theorem ext_get? {t u : SwitchTable} (h : ∀ s, t.get? s = u.get? s) : t = u := by
  obtain ⟨cells⟩ := t
  obtain ⟨cells'⟩ := u
  congr 1
  ext i hi : 1
  have hall : i < Switch.all.length := Switch.length_all ▸ hi
  have hget := h Switch.all[i]
  simpa [get?, Switch.index_getElem_all hall] using hget

/-- What has been learnt of a switch is what has been learnt of it last. -/
theorem get?_learn_eq_or (t : SwitchTable) (states : List (Switch × Bool)) (s : Switch) :
    (t.learn states).get? s = (states.reverse.lookup s).or (t.get? s) := by
  induction states using List.reverseRecOn with
  | nil => rfl
  | append_singleton states state ih =>
    obtain ⟨u, active⟩ := state
    rw [learn_append, List.reverse_append, List.reverse_singleton, List.singleton_append]
    by_cases hsame : s = u
    · subst hsame
      rw [List.lookup_cons_self, Option.some_or]
      exact get?_insert_self _ s active
    · rw [List.lookup_cons, beq_eq_false_iff_ne.mpr hsame, ← ih]
      exact get?_insert_of_ne _ active hsame

/-- **What is known already may be learnt again.** -/
theorem learn_learn_append (t : SwitchTable) (states more : List (Switch × Bool)) :
    (t.learn states).learn (states ++ more) = t.learn (states ++ more) := by
  refine ext_get? fun s ↦ ?_
  simp only [get?_learn_eq_or, List.reverse_append, List.lookup_append]
  cases more.reverse.lookup s <;> cases states.reverse.lookup s <;> rfl

/-! ## Full tables -/

/-- The state of each switch is known. -/
def IsFull (t : SwitchTable) : Prop := ∀ s, (t.get? s).isSome

theorem IsFull.learn {t : SwitchTable} (h : t.IsFull) (states : List (Switch × Bool)) :
    (t.learn states).IsFull := by
  intro s
  rw [get?_learn_eq_or, Option.isSome_or, h s, Bool.or_true]

/-- The numbers of the switches whose state is known, row by row. -/
def keys (t : SwitchTable) : List Nat :=
  (Switch.all.filter fun s ↦ (t.get? s).isSome).map fun s ↦ s.number.toNat

theorem IsFull.keys_eq {t : SwitchTable} (h : t.IsFull) :
    t.keys =
      (List.range 8).flatMap fun row ↦ (List.range 8).map fun column ↦ 10 * row + column := by
  rw [keys, List.filter_eq_self.mpr fun s _ ↦ h s]
  decide

end SwitchTable

end PinballBoard
