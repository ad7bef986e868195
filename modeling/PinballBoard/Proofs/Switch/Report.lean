import Mathlib.Data.Nat.Bitwise
import PinballBoard.Switch.Report

/-!
# Poll answers in numbers

The board packs a number and a state into one byte, and the code takes them apart with masks. A host
that counts in decimal reads the same byte by division: the number is the byte modulo 128, and the
state is whether the byte is 128 or more. `SwitchReport.change?` reads a change like this, and
`SwitchReport.ofByte_eq` says that both readings are one.
-/

namespace PinballBoard

/-- Both decimal digits are below 8. -/
def IsAddress (n : Nat) : Prop := n / 10 < 8 ∧ n % 10 < 8

instance (n : Nat) : Decidable (IsAddress n) := inferInstanceAs (Decidable (_ ∧ _))

namespace SwitchReport

/-- The change that a status reports, if it reports one. -/
def change? (status : UInt8) : Option (Switch × Bool) :=
  if h : status.toNat ≠ 127 ∧ IsAddress (status.toNat % 128) then
    have hnumber : (UInt8.ofNat (status.toNat % 128)).toNat = status.toNat % 128 := by
      rw [UInt8.toNat_ofNat', Nat.mod_eq_of_lt (by omega)]
    some (⟨UInt8.ofNat (status.toNat % 128), by rw [hnumber]; exact h.2.1,
      by rw [hnumber]; exact h.2.2⟩, decide (128 ≤ status.toNat))
  else none

/-- What is wrong with a status that reports no change and does not say so. -/
def fault (status : UInt8) : ProtocolError :=
  .invalidSwitch s!"{status.toNat % 128} (row and column must both be 0-7)"

theorem message_fault (status : UInt8) :
    (fault status).message = "Invalid switch number: " ++
      s!"{status.toNat % 128} (row and column must both be 0-7)" := rfl

private theorem toNat_address (status : UInt8) :
    (status &&& Code.addressMask).toNat = status.toNat % 128 := by
  rw [UInt8.toNat_and]
  exact Nat.and_two_pow_sub_one_eq_mod status.toNat 7

private theorem state_eq (status : UInt8) :
    (status &&& Code.stateBit != 0) = decide (128 ≤ status.toNat) := by
  have hlt := status.toNat_lt
  have hbit : (status &&& Code.stateBit).toNat = (status.toNat.testBit 7).toNat * 128 := by
    rw [UInt8.toNat_and]
    exact Nat.and_two_pow status.toNat 7
  have htop : status.toNat.testBit 7 = decide (128 ≤ status.toNat) := by
    rw [Nat.testBit_eq_decide_div_mod_eq, decide_eq_decide]
    omega
  have hzero : status &&& Code.stateBit = 0 ↔ (status &&& Code.stateBit).toNat = 0 := by
    rw [← UInt8.toNat_inj]
    rfl
  rw [htop] at hbit
  by_cases h : 128 ≤ status.toNat
  · have hne : status &&& Code.stateBit ≠ 0 := by
      rw [ne_eq, hzero, hbit]
      simp [h]
    simpa [h] using hne
  · have heq : status &&& Code.stateBit = 0 := by
      rw [hzero, hbit]
      simp [h]
    simpa [h] using heq

private theorem eq_noChange_iff (status : UInt8) : status = Code.noChange ↔ status.toNat = 127 :=
  UInt8.toNat_inj.symm

/-- **The meaning of a poll answer**, in numbers. -/
theorem ofByte_eq (status : UInt8) :
    ofByte status =
      match change? status with
      | some (switch, active) => .ok (.changed switch active)
      | none => if status.toNat = 127 then .ok .unchanged else .error (fault status) := by
  by_cases hsame : status = Code.noChange
  · have heq : status.toNat = 127 := (eq_noChange_iff status).mp hsame
    rw [ofByte, if_pos hsame, change?, dif_neg (by simp [heq])]
    exact (if_pos heq).symm
  have hne : status.toNat ≠ 127 := mt (eq_noChange_iff status).mpr hsame
  have hnumber := toNat_address status
  rw [ofByte, if_neg hsame, Switch.ofNumber]
  by_cases haddress : IsAddress (status.toNat % 128)
  · have hvalid : (status &&& Code.addressMask).toNat / 10 < 8 ∧
        (status &&& Code.addressMask).toNat % 10 < 8 := by rwa [hnumber]
    rw [dif_pos hvalid, change?, dif_pos ⟨hne, haddress⟩, state_eq]
    have hswitch : status &&& Code.addressMask = UInt8.ofNat (status.toNat % 128) := by
      rw [← hnumber, UInt8.ofNat_toNat]
    simp only [hswitch]
    rfl
  · have hbad : ¬((status &&& Code.addressMask).toNat / 10 < 8 ∧
        (status &&& Code.addressMask).toNat % 10 < 8) := by rwa [hnumber]
    rw [dif_neg hbad, change?, dif_neg (by simp [haddress]), hnumber]
    exact (if_neg hne).symm

theorem change?_eq_some {status : UInt8} {switch : Switch} {active : Bool} :
    change? status = some (switch, active) ↔
      status ≠ Code.noChange ∧ switch.number = status &&& Code.addressMask ∧
        active = (status &&& Code.stateBit != 0) := by
  have hread : change? status = some (switch, active) ↔
      ofByte status = .ok (.changed switch active) := by
    rw [ofByte_eq]
    cases change? status with
    | some change => simp [Prod.ext_iff]
    | none =>
      dsimp only
      split <;> simp
  rw [hread, ofByte]
  split
  · rename_i hsame
    simp [hsame]
  · rename_i hne
    cases hswitch : Switch.ofNumber (status &&& Code.addressMask) with
    | ok found =>
      have hfound : found.number = status &&& Code.addressMask := by
        rw [Switch.ofNumber] at hswitch
        split at hswitch
        · cases hswitch
          rfl
        · cases hswitch
      simp [Except.map, hne, ← hfound, Switch.ext_iff, eq_comm]
    | error e =>
      refine iff_of_false (by simp [Except.map]) ?_
      rintro ⟨-, hnumber, -⟩
      rw [← hnumber, Switch.ofNumber_number] at hswitch
      cases hswitch

theorem number_ne_of_change?_eq_none {status : UInt8} (h : change? status = none)
    (switch : Switch) : switch.number ≠ status &&& Code.addressMask := by
  intro hnumber
  by_cases hsame : status = Code.noChange
  · have hrow := switch.row_lt
    rw [hnumber, hsame] at hrow
    exact absurd hrow (by decide)
  · have hchange := change?_eq_some.mpr ⟨hsame, hnumber, rfl⟩
    rw [h] at hchange
    cases hchange

end SwitchReport

end PinballBoard
