import AionFastVM.Jni.Message
import AionFastVM.Jit.HostWords

/-!
# Storage callbacks

`none` stands where Java throws.
-/

namespace AionFastVM.Jni
open AionFastVM.Library AionFastVM.Jit

/-- The storage of an external state as `IExternalStateForFvm` documents it. -/
structure ExternalStorage (σ : Type) where
  addStorageValue : σ → Address → DataWord → DataWord → σ
  removeStorage : σ → Address → DataWord → σ
  getStorageValue : σ → Address → DataWord → Option DataWord
  get_add : ∀ s address key value address' key',
    getStorageValue (addStorageValue s address key value) address' key' =
      if address' = address ∧ key' = key then some value else getStorageValue s address' key'
  get_remove : ∀ s address key address' key',
    getStorageValue (removeStorage s address key) address' key' =
      if address' = address ∧ key' = key then none else getStorageValue s address' key'

def mapStorage : ExternalStorage (Address → DataWord → Option DataWord) where
  addStorageValue s address key value := fun a k => if a = address ∧ k = key then some value else s a k
  removeStorage s address key := fun a k => if a = address ∧ k = key then none else s a k
  getStorageValue s address key := s address key
  get_add _ _ _ _ _ _ := rfl
  get_remove _ _ _ _ _ := rfl

variable {σ : Type} (st : ExternalStorage σ)

namespace Callback

def isZero (value : List UInt8) : Bool :=
  (List.range value.length).all fun i => value.getD (value.length - 1 - i) 0 == 0

def putStorage (s : σ) (address : Address) (key value : List UInt8) : Option σ :=
  if value.length = 0 ∨ isZero value = true then
    (DataWord.ofBytes key).map fun key => st.removeStorage s address key
  else do
    let key ← DataWord.ofBytes key
    let value ← DataWord.ofBytes value
    pure (st.addStorageValue s address key value)

/-- `Callback.getStorage`; `getStorageValue` returns null for a key without a pairing. -/
def getStorage (s : σ) (address : Address) (key : List UInt8) : Option (List UInt8) := do
  let key ← DataWord.ofBytes key
  let value ← st.getStorageValue s address key
  pure value.toList

end Callback

def setStorage (s : σ) (address : Address) (key value : DataWord) : Option σ :=
  Callback.putStorage st s address key.toList value.toList

def getStorage (s : σ) (address : Address) (key : DataWord) : Option DataWord :=
  (Callback.getStorage st s address key.toList).bind fun bytes =>
    if h : bytes.length = 16 then some ⟨bytes, h⟩ else none

def Ext.sstore (s : σ) (address : Address) (index value : BitVec 128) : Option σ :=
  setStorage st s (myAddr address) (beWord index) (beWord value)

def Ext.sload (s : σ) (address : Address) (index : BitVec 128) : Option (BitVec 128) :=
  (getStorage st s (myAddr address) (beWord index)).map fun value =>
    bswapIfLE 16 (loadLE 16 value.toList)

inductive StorageCall where
  | setStorage (address : Address) (key value : DataWord)
  | getStorage (address : Address) (key : DataWord)

def runCalls : σ → List StorageCall → Option (σ × List DataWord)
  | s, [] => some (s, [])
  | s, .setStorage address key value :: calls => do
    let s ← setStorage st s address key value
    runCalls s calls
  | s, .getStorage address key :: calls => do
    let value ← getStorage st s address key
    let (s, values) ← runCalls s calls
    pure (s, value :: values)

def writeWord {β : Type} (m : Address → DataWord → β) (address : Address) (key : DataWord)
    (value : β) : Address → DataWord → β :=
  fun address' key' => if address' = address ∧ key' = key then value else m address' key'

def mapAnswers : (Address → DataWord → DataWord) → List StorageCall → List DataWord
  | _, [] => []
  | m, .setStorage address key value :: calls => mapAnswers (writeWord m address key value) calls
  | m, .getStorage address key :: calls => m address key :: mapAnswers m calls

def readsAbsent : (Address → DataWord → Bool) → List StorageCall → Bool
  | _, [] => false
  | present, .setStorage address key value :: calls =>
    readsAbsent (writeWord present address key (decide (value ≠ DataWord.zero))) calls
  | present, .getStorage address key :: calls => !present address key || readsAbsent present calls

namespace Callback

theorem isZero_iff (value : List UInt8) : isZero value = true ↔ ∀ b ∈ value, b = 0 := by
  simp only [isZero, List.all_eq_true, List.mem_range, beq_iff_eq]
  constructor
  · intro zeros b member
    obtain ⟨j, inside, rfl⟩ := List.getElem_of_mem member
    have atJ := zeros (value.length - 1 - j) (by omega)
    rwa [show value.length - 1 - (value.length - 1 - j) = j by omega,
      List.getD_eq_getElem _ _ inside] at atJ
  · intro zeros i inside
    rw [List.getD_eq_getElem _ _ (by omega)]
    exact zeros _ (List.getElem_mem _)

theorem isZero_toList (word : DataWord) : isZero word.toList = true ↔ word = DataWord.zero := by
  have asList : word = DataWord.zero ↔ word.toList = List.replicate 16 0 :=
    ⟨fun same => by rw [same]; rfl, fun same => List.Vector.eq _ _ (same.trans rfl)⟩
  rw [isZero_iff, asList, List.eq_replicate_iff]
  exact ⟨fun zeros => ⟨word.toList_length, zeros⟩, fun both => both.2⟩

end Callback

theorem ofBytes_toList (word : DataWord) : DataWord.ofBytes word.toList = some word := by
  rw [DataWord.ofBytes, dif_pos word.toList_length]
  exact congrArg some (List.Vector.eq _ _ rfl)

theorem setStorage_eq (s : σ) (address : Address) (key value : DataWord) :
    setStorage st s address key value =
      some (if value = DataWord.zero then st.removeStorage s address key
        else st.addStorageValue s address key value) := by
  by_cases zero : value = DataWord.zero
  · rw [setStorage, Callback.putStorage, if_pos (.inr ((Callback.isZero_toList value).mpr zero)),
      ofBytes_toList, if_pos zero]
    rfl
  · have written : ¬(value.toList.length = 0 ∨ Callback.isZero value.toList = true) := by
      rw [value.toList_length, Callback.isZero_toList]
      exact fun written => written.elim (by omega) zero
    rw [setStorage, Callback.putStorage, if_neg written, if_neg zero]
    simp [ofBytes_toList]

theorem getStorage_eq (s : σ) (address : Address) (key : DataWord) :
    getStorage st s address key = st.getStorageValue s address key := by
  cases stored : st.getStorageValue s address key with
  | none => simp [getStorage, Callback.getStorage, ofBytes_toList, stored]
  | some value =>
    simp only [getStorage, Callback.getStorage, ofBytes_toList, stored, Option.bind_eq_bind,
      Option.bind_some, Option.pure_def, value.toList_length, dite_true]
    exact congrArg some (List.Vector.eq _ _ rfl)

theorem map_writeWord {β γ : Type} (f : β → γ) (m : Address → DataWord → β) (address : Address)
    (key : DataWord) (value : β) :
    (fun address' key' => f (writeWord m address key value address' key')) =
      writeWord (fun address' key' => f (m address' key')) address key (f value) := by
  funext address' key'
  unfold writeWord
  split <;> rfl

theorem getStorageValue_written (s : σ) (address : Address) (key value : DataWord) :
    st.getStorageValue (if value = DataWord.zero then st.removeStorage s address key
        else st.addStorageValue s address key value) =
      writeWord (st.getStorageValue s) address key
        (if value = DataWord.zero then none else some value) := by
  funext address' key'
  by_cases zero : value = DataWord.zero
  · rw [if_pos zero, if_pos zero, st.get_remove]
    rfl
  · rw [if_neg zero, if_neg zero, st.get_add]
    rfl

theorem runCalls_answers (calls : List StorageCall) (s : σ) :
    (runCalls st s calls).map Prod.snd =
      if readsAbsent (fun address key => (st.getStorageValue s address key).isSome) calls then none
      else some (mapAnswers
        (fun address key => (st.getStorageValue s address key).getD DataWord.zero) calls) := by
  induction calls generalizing s with
  | nil => rfl
  | cons call calls ih =>
    cases call with
    | setStorage address key value =>
      simp only [runCalls, setStorage_eq, Option.bind_eq_bind, Option.bind_some]
      rw [ih, getStorageValue_written, map_writeWord Option.isSome,
        map_writeWord (fun word => Option.getD word DataWord.zero)]
      by_cases zero : value = DataWord.zero <;> simp [readsAbsent, mapAnswers, zero]
    | getStorage address key =>
      simp only [runCalls, getStorage_eq, Option.bind_eq_bind, readsAbsent, mapAnswers]
      rcases Option.eq_none_or_eq_some (st.getStorageValue s address key) with stored | ⟨word, stored⟩
      · simp [stored]
      · simp only [stored, Option.bind_some, Option.isSome_some, Bool.not_true, Bool.false_or,
          Option.getD_some]
        have mapped : Option.map Prod.snd ((runCalls st s calls).bind fun run =>
            pure (run.1, word :: run.2)) = ((runCalls st s calls).map Prod.snd).map (word :: ·) := by
          cases runCalls st s calls <;> rfl
        rw [mapped, ih]
        split <;> rfl

theorem sload_beWord (value : BitVec 128) : bswapIfLE 16 (loadLE 16 (beWord value).toList) = value := by
  have swapped : isLittleEndianHost = true := rfl
  have fits : value.toNat < 256 ^ 16 := value.isLt
  rw [bswapIfLE, if_pos swapped, toList_beWord, bswap_loadLE (length_storeLE 16 _), bswapIfLE,
    if_pos swapped, storeLE_bswap, beValue_beBytes_of_lt fits]
  apply BitVec.eq_of_toNat_eq
  rw [BitVec.toNat_ofNat, Nat.mod_eq_of_lt value.isLt]

theorem beWord_eq_zero (value : BitVec 128) : beWord value = DataWord.zero ↔ value = 0#128 := by
  constructor
  · intro zero
    have read := sload_beWord value
    rw [zero] at read
    rw [← read]
    rfl
  · rintro rfl
    decide

theorem sload_sstore {s s' : σ} {address : Address} {index value : BitVec 128}
    (stored : Ext.sstore st s address index value = some s') :
    Ext.sload st s' address index = if value = 0#128 then none else some value := by
  rw [Ext.sstore, setStorage_eq, Option.some.injEq] at stored
  subst stored
  rw [Ext.sload, getStorage_eq, getStorageValue_written, writeWord, if_pos ⟨rfl, rfl⟩]
  by_cases zero : value = 0#128
  · rw [if_pos ((beWord_eq_zero value).mpr zero), if_pos zero]
    rfl
  · rw [if_neg (mt (beWord_eq_zero value).mp zero), if_neg zero, Option.map_some, sload_beWord]

/-- A read of a key without a pairing throws where the EVM map answers zero. -/
theorem getStorage_throws_without_pairing :
    runCalls mapStorage (fun _ _ => none)
        [.getStorage (List.Vector.replicate 32 1) DataWord.zero] = none ∧
      runCalls mapStorage (fun _ _ => none)
        [.setStorage (List.Vector.replicate 32 1) DataWord.zero (DataWord.fromLong 1),
          .setStorage (List.Vector.replicate 32 1) DataWord.zero DataWord.zero,
          .getStorage (List.Vector.replicate 32 1) DataWord.zero] = none ∧
      mapAnswers (fun _ _ => DataWord.zero)
        [.getStorage (List.Vector.replicate 32 1) DataWord.zero] = [DataWord.zero] ∧
      mapAnswers (fun _ _ => DataWord.zero)
        [.setStorage (List.Vector.replicate 32 1) DataWord.zero (DataWord.fromLong 1),
          .setStorage (List.Vector.replicate 32 1) DataWord.zero DataWord.zero,
          .getStorage (List.Vector.replicate 32 1) DataWord.zero] = [DataWord.zero] :=
  ⟨rfl, rfl, rfl, rfl⟩

end AionFastVM.Jni
