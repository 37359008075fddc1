import Mathlib

/-!
# Storage layout with 16-byte slots
-/

namespace AionFastVM.Solc

structure Footprint where
  canBeStored : Bool
  storageBytes : Nat
  storageSize : Nat

def layoutFrom : List Footprint → Nat → Nat → List (Option (Nat × Nat)) × Nat × Nat
  | [], slotOffset, byteOffset => ([], slotOffset, byteOffset)
  | t :: ts, slotOffset, byteOffset =>
    if t.canBeStored then
      -- would overflow, go to next slot
      let (slotOffset, byteOffset) :=
        if byteOffset + t.storageBytes > 16 ∧ byteOffset > 0 then (slotOffset + 1, 0)
        else (slotOffset, byteOffset)
      let next :=
        if t.storageSize = 1 ∧ byteOffset + t.storageBytes ≤ 16 then
          layoutFrom ts slotOffset (byteOffset + t.storageBytes)
        else layoutFrom ts (slotOffset + t.storageSize) 0
      (some (slotOffset, byteOffset) :: next.1, next.2)
    else
      let next := layoutFrom ts slotOffset byteOffset
      (none :: next.1, next.2)

def endSlot (cursors : Nat × Nat) : Nat :=
  if cursors.2 > 0 then cursors.1 + 1 else cursors.1

def layoutSize (footprints : List Footprint) : Nat := endSlot (layoutFrom footprints 0 0).2

theorem layoutFrom_cons_of_canBeStored {t : Footprint} (stored : t.canBeStored = true)
    (ts : List Footprint) {slot byte : Nat} (byteLe : byte ≤ 16) :
    ∃ cursor : Nat × Nat, 16 * slot + byte ≤ 16 * cursor.1 + cursor.2 ∧ cursor.2 ≤ byte ∧
      (cursor.2 = 0 ∨ cursor.2 + t.storageBytes ≤ 16) ∧
      layoutFrom (t :: ts) slot byte =
        let next :=
          if t.storageSize = 1 ∧ cursor.2 + t.storageBytes ≤ 16 then
            layoutFrom ts cursor.1 (cursor.2 + t.storageBytes)
          else layoutFrom ts (cursor.1 + t.storageSize) 0
        (some cursor :: next.1, next.2) := by
  by_cases full : byte + t.storageBytes > 16 ∧ byte > 0
  · refine ⟨(slot + 1, 0), by omega, Nat.zero_le _, .inl rfl, ?_⟩
    simp only [layoutFrom, stored, full, and_self, if_true]
  · refine ⟨(slot, byte), Nat.le_refl _, Nat.le_refl _, by omega, ?_⟩
    simp only [layoutFrom, stored, full, if_true, if_false]

theorem layoutFrom_cons_of_not_canBeStored {t : Footprint} (stored : t.canBeStored = false)
    (ts : List Footprint) (slot byte : Nat) :
    layoutFrom (t :: ts) slot byte =
      (none :: (layoutFrom ts slot byte).1, (layoutFrom ts slot byte).2) := by
  simp only [layoutFrom, stored, Bool.false_eq_true, if_false]

namespace Footprint

def extent (t : Footprint) : Nat :=
  if t.storageSize = 1 then t.storageBytes else 16 * t.storageSize

@[mk_iff]
structure Packs (t : Footprint) : Prop where
  size_pos : 1 ≤ t.storageSize
  fits_slot : t.storageSize = 1 → t.storageBytes ≤ 16
  fills_slots : 1 < t.storageSize → 16 ≤ t.storageBytes ∧ t.storageBytes ≤ 16 * t.storageSize

def Placed (t : Footprint) (offset : Nat × Nat) : Prop :=
  (t.storageSize = 1 → offset.2 + t.storageBytes ≤ 16) ∧ (1 < t.storageSize → offset.2 = 0)

def Laid (t : Footprint) : Option (Nat × Nat) → Prop
  | some offset => t.canBeStored = true ∧ t.Placed offset
  | none => t.canBeStored = false

end Footprint

def ranges : List Footprint → List (Option (Nat × Nat)) → List (Nat × Nat)
  | t :: ts, some offset :: offsets =>
    (16 * offset.1 + offset.2, 16 * offset.1 + offset.2 + t.extent) :: ranges ts offsets
  | _ :: ts, none :: offsets => ranges ts offsets
  | _, _ => []

def Ordered (lo hi : Nat) : List (Nat × Nat) → Prop
  | [] => lo ≤ hi
  | range :: rest => lo ≤ range.1 ∧ range.1 ≤ range.2 ∧ Ordered range.2 hi rest

namespace Ordered

variable {lo hi : Nat} {rs : List (Nat × Nat)}

theorem mono {lo' hi' : Nat} (loLe : lo' ≤ lo) (hiLe : hi ≤ hi') (ordered : Ordered lo hi rs) :
    Ordered lo' hi' rs := by
  induction rs generalizing lo lo' with
  | nil => exact Nat.le_trans loLe (Nat.le_trans ordered hiLe)
  | cons r rs ih =>
    obtain ⟨starts, nonempty, rest⟩ := ordered
    exact ⟨Nat.le_trans loLe starts, nonempty, ih (Nat.le_refl _) rest⟩

theorem le (ordered : Ordered lo hi rs) : lo ≤ hi := by
  induction rs generalizing lo with
  | nil => exact ordered
  | cons r rs ih =>
    obtain ⟨starts, nonempty, rest⟩ := ordered
    have := ih rest
    omega

theorem bounds (ordered : Ordered lo hi rs) : ∀ r ∈ rs, lo ≤ r.1 ∧ r.1 ≤ r.2 ∧ r.2 ≤ hi := by
  induction rs generalizing lo with
  | nil => simp
  | cons r rs ih =>
    obtain ⟨starts, nonempty, rest⟩ := ordered
    intro r' mem
    rcases List.mem_cons.mp mem with rfl | mem
    · exact ⟨starts, nonempty, rest.le⟩
    · have := ih rest r' mem
      omega

theorem pairwise (ordered : Ordered lo hi rs) : rs.Pairwise (fun r s => r.2 ≤ s.1) := by
  induction rs generalizing lo with
  | nil => exact List.Pairwise.nil
  | cons r rs ih =>
    obtain ⟨-, -, rest⟩ := ordered
    exact List.pairwise_cons.mpr ⟨fun s mem => (rest.bounds s mem).1, ih rest⟩

end Ordered

theorem layoutFrom_sound {ts : List Footprint} (packs : ∀ t ∈ ts, t.canBeStored → t.Packs)
    (slot : Nat) {byte : Nat} (byteLe : byte ≤ 16) :
    List.Forall₂ Footprint.Laid ts (layoutFrom ts slot byte).1 ∧
      (layoutFrom ts slot byte).2.2 ≤ 16 ∧
      Ordered (16 * slot + byte) (16 * (layoutFrom ts slot byte).2.1 + (layoutFrom ts slot byte).2.2)
        (ranges ts (layoutFrom ts slot byte).1) := by
  induction ts generalizing slot byte with
  | nil => exact ⟨.nil, byteLe, Nat.le_refl _⟩
  | cons t ts ih =>
    have packsTail : ∀ t ∈ ts, t.canBeStored → t.Packs :=
      fun t' mem => packs t' (List.mem_cons_of_mem t mem)
    cases stored : t.canBeStored
    case false =>
      obtain ⟨laid, byteLe', ordered⟩ := ih packsTail slot byteLe
      rw [layoutFrom_cons_of_not_canBeStored stored]
      exact ⟨.cons stored laid, byteLe', ordered⟩
    case true =>
      obtain ⟨size1, fits, fills⟩ := packs t List.mem_cons_self stored
      obtain ⟨cursor, advances, cursorLe, fresh, unfolds⟩ :=
        layoutFrom_cons_of_canBeStored stored ts byteLe
      rw [unfolds]
      dsimp only
      split
      case isTrue packed =>
        obtain ⟨laid, byteLe', ordered⟩ := ih packsTail cursor.1 packed.2
        refine ⟨.cons ⟨stored, fun _ => packed.2, by omega⟩ laid, byteLe', ?_⟩
        simp only [ranges, Ordered, Footprint.extent, packed.1, if_true]
        exact ⟨advances, by omega, by rwa [Nat.add_assoc]⟩
      case isFalse spread =>
        have multi : 1 < t.storageSize := by
          by_contra single
          have := fits (by omega)
          omega
        have fresh' : cursor.2 = 0 := by
          have := (fills multi).1
          omega
        obtain ⟨laid, byteLe', ordered⟩ :=
          ih packsTail (cursor.1 + t.storageSize) (Nat.zero_le 16)
        refine ⟨.cons ⟨stored, by omega, fun _ => fresh'⟩ laid, byteLe', ?_⟩
        simp only [ranges, Ordered, Footprint.extent, Nat.ne_of_gt multi, if_false]
        exact ⟨advances, by omega, ordered.mono (by omega) (Nat.le_refl _)⟩

theorem le_endSlot {cursors : Nat × Nat} (byteLe : cursors.2 ≤ 16) :
    16 * cursors.1 + cursors.2 ≤ 16 * endSlot cursors := by
  unfold endSlot
  split <;> omega

inductive IntegerModifier where
  | unsigned | signed | address
  deriving DecidableEq, Repr

inductive FunctionKind where
  | internal | external | other
  deriving DecidableEq, Repr

/-- `other` is every type that cannot be stored. -/
inductive SolType where
  | integer (bits : Nat) (modifier : IntegerModifier)
  | fixedPoint (totalBits : Nat)
  | fixedBytes (bytes : Nat)
  | bool
  | contract
  | enum (members : Nat)
  | function (kind : FunctionKind)
  | array (base : SolType) (length : Option Nat)
  | mapping
  | struct (members : List SolType)
  | other
  deriving Repr

def bytesRequired (value : Nat) : Nat :=
  if _ : value = 0 then 0 else bytesRequired (value / 256) + 1
termination_by value
decreasing_by omega

namespace SolType

def numBits (bits : Nat) : IntegerModifier → Nat
  | .address => 256
  | _ => bits

def canBeStored : SolType → Bool
  | .function .other => false
  | .other => false
  | _ => true

def storageBytes : SolType → Nat
  | .integer bits modifier => numBits bits modifier / 8
  | .fixedPoint totalBits => totalBits / 8
  | .fixedBytes bytes => bytes
  | .bool => 1
  | .contract => 20
  | .enum members => if members ≤ 1 then 1 else bytesRequired (members - 1)
  | .function .internal => 8
  | .function .external => 32 + 4
  | _ => 16

mutual
/-- `storageSize`; its "too large for storage" errors are left out. -/
def storageSize : SolType → Nat
  | .integer bits modifier => if numBits bits modifier > 128 then 2 else 1
  | .fixedBytes bytes => if bytes > 16 then 2 else 1
  | .contract => 2
  | .function .external => 3
  | .array base (some length) =>
    let baseBytes := base.storageBytes
    let size :=
      if baseBytes = 0 then 1
      else if baseBytes < 16 then
        let itemsPerSlot := 16 / baseBytes
        (length + (itemsPerSlot - 1)) / itemsPerSlot
      else length * storageSize base
    max 1 size
  | .struct members => max 1 (layoutSize (footprints members))
  | _ => 1

def footprints : List SolType → List Footprint
  | [] => []
  | t :: ts => ⟨t.canBeStored, t.storageBytes, storageSize t⟩ :: footprints ts
end

def footprint (t : SolType) : Footprint := ⟨t.canBeStored, t.storageBytes, t.storageSize⟩

@[simp] theorem footprint_canBeStored (t : SolType) : t.footprint.canBeStored = t.canBeStored := rfl
@[simp] theorem footprint_storageBytes (t : SolType) : t.footprint.storageBytes = t.storageBytes := rfl
@[simp] theorem footprint_storageSize (t : SolType) : t.footprint.storageSize = t.storageSize := rfl

theorem footprints_eq_map (types : List SolType) : footprints types = types.map footprint := by
  induction types with
  | nil => rfl
  | cons t ts ih => rw [footprints, ih, List.map_cons, footprint]

def Valid : SolType → Prop
  | .integer bits modifier =>
    0 < numBits bits modifier ∧ numBits bits modifier ≤ 256 ∧ numBits bits modifier % 8 = 0
  | .fixedPoint totalBits => 8 ≤ totalBits ∧ totalBits ≤ 256 ∧ totalBits % 8 = 0
  | .fixedBytes bytes => bytes ≤ 32
  | _ => True

instance decidableValid : (t : SolType) → Decidable t.Valid
  | .integer bits modifier =>
    inferInstanceAs (Decidable (0 < numBits bits modifier ∧ numBits bits modifier ≤ 256 ∧
      numBits bits modifier % 8 = 0))
  | .fixedPoint totalBits =>
    inferInstanceAs (Decidable (8 ≤ totalBits ∧ totalBits ≤ 256 ∧ totalBits % 8 = 0))
  | .fixedBytes bytes => inferInstanceAs (Decidable (bytes ≤ 32))
  | .bool | .contract | .enum _ | .function _ | .array _ _ | .mapping | .struct _ | .other =>
    isTrue trivial

end SolType

structure StorageOffsets where
  offsets : List (Option (Nat × Nat))
  storageSize : Nat
  deriving DecidableEq, Repr

def computeOffsets (types : List SolType) : Option StorageOffsets :=
  let (offsets, cursors) := layoutFrom (SolType.footprints types) 0 0
  let storageSize := endSlot cursors
  if offsets.any (fun offset => offset.any fun o => 2 ^ 128 ≤ o.1) ∨ 2 ^ 128 ≤ storageSize then
    none
  else some ⟨offsets, storageSize⟩

theorem computeOffsets_eq_some {types : List SolType} {layout : StorageOffsets}
    (computed : computeOffsets types = some layout) :
    layout.offsets = (layoutFrom (SolType.footprints types) 0 0).1 ∧
      layout.storageSize = endSlot (layoutFrom (SolType.footprints types) 0 0).2 := by
  simp only [computeOffsets] at computed
  split at computed
  · cases computed
  · cases computed
    exact ⟨rfl, rfl⟩

theorem computeOffsets_sound {types : List SolType} {layout : StorageOffsets}
    (packs : ∀ t ∈ types, t.canBeStored → t.footprint.Packs)
    (computed : computeOffsets types = some layout) :
    List.Forall₂ Footprint.Laid (types.map SolType.footprint) layout.offsets ∧
      (ranges (types.map SolType.footprint) layout.offsets).Pairwise (fun r s => r.2 ≤ s.1) ∧
      ∀ r ∈ ranges (types.map SolType.footprint) layout.offsets,
        r.1 ≤ r.2 ∧ r.2 ≤ 16 * layout.storageSize := by
  obtain ⟨offsets, size⟩ := computeOffsets_eq_some computed
  have packsMap : ∀ t ∈ types.map SolType.footprint, t.canBeStored → t.Packs := by
    simpa using packs
  rw [← SolType.footprints_eq_map] at packsMap ⊢
  obtain ⟨laid, byteLe, ordered⟩ := layoutFrom_sound packsMap 0 (Nat.zero_le 16)
  rw [offsets, size]
  have inside := ordered.mono (Nat.le_refl _) (le_endSlot byteLe)
  refine ⟨laid, inside.pairwise, fun r mem => ?_⟩
  have := inside.bounds r mem
  omega

namespace SolType

theorem storageSize_pos (t : SolType) : 1 ≤ t.storageSize := by
  cases t with
  | integer bits modifier => simp only [storageSize]; split <;> omega
  | fixedBytes bytes => simp only [storageSize]; split <;> omega
  | function kind => cases kind <;> simp [storageSize]
  | array base length =>
    cases length with
    | none => simp [storageSize]
    | some length => simp only [storageSize]; exact Nat.le_max_left _ _
  | struct members => simp only [storageSize]; exact Nat.le_max_left _ _
  | _ => simp [storageSize]

theorem bytesRequired_le_iff (value k : Nat) : bytesRequired value ≤ k ↔ value < 256 ^ k := by
  induction k generalizing value with
  | zero =>
    rw [bytesRequired]
    split <;> omega
  | succ k ih =>
    rw [bytesRequired]
    split
    case isTrue zero =>
      simp only [zero, Nat.zero_le, true_iff]
      exact Nat.pow_pos (by decide)
    case isFalse nonzero =>
      rw [Nat.add_le_add_iff_right, ih, Nat.div_lt_iff_lt_mul (by decide), Nat.pow_succ]

def Exceeds : SolType → Prop
  | .fixedPoint totalBits => 128 < totalBits
  | .enum members => 2 ^ 128 < members
  | _ => False

theorem packs_of_storageBytes {t : SolType} (whole : t.storageBytes = 16) : t.footprint.Packs := by
  have := t.storageSize_pos
  refine ⟨this, fun _ => ?_, fun _ => ⟨?_, ?_⟩⟩ <;> simp only [footprint, whole] <;> omega

theorem packs_iff_not_exceeds {t : SolType} (valid : t.Valid) (stored : t.canBeStored = true) :
    t.footprint.Packs ↔ ¬ t.Exceeds := by
  cases t with
  | integer bits modifier =>
    obtain ⟨positive, le256, whole⟩ := valid
    simp only [Exceeds, not_false_eq_true, iff_true, Footprint.packs_iff, footprint_storageBytes,
      footprint_storageSize, storageBytes, storageSize]
    by_cases wide : numBits bits modifier > 128 <;> simp only [wide, if_true, if_false] <;> omega
  | fixedPoint totalBits =>
    obtain ⟨le8, le256, whole⟩ := valid
    simp only [Exceeds, Footprint.packs_iff, footprint_storageBytes, footprint_storageSize,
      storageBytes, storageSize, Nat.le_refl, Nat.lt_irrefl, true_implies, false_implies,
      true_and, and_true]
    omega
  | fixedBytes bytes =>
    have le32 : bytes ≤ 32 := valid
    simp only [Exceeds, not_false_eq_true, iff_true, Footprint.packs_iff, footprint_storageBytes,
      footprint_storageSize, storageBytes, storageSize]
    by_cases wide : bytes > 16 <;> simp only [wide, if_true, if_false] <;> omega
  | enum members =>
    simp only [Exceeds, Footprint.packs_iff, footprint_storageBytes, footprint_storageSize,
      storageBytes, storageSize, Nat.le_refl, Nat.lt_irrefl, true_implies, false_implies,
      true_and, and_true]
    split
    case isTrue few => omega
    case isFalse many =>
      simp only [bytesRequired_le_iff, Nat.reducePow]
      omega
  | function kind =>
    cases kind <;> simp_all [Footprint.packs_iff, storageBytes, storageSize, Exceeds, canBeStored]
  | other => simp [canBeStored] at stored
  | bool => simp [Footprint.packs_iff, storageBytes, storageSize, Exceeds]
  | contract => simp [Footprint.packs_iff, storageBytes, storageSize, Exceeds]
  | array base length => simpa [Exceeds] using packs_of_storageBytes (t := .array base length) rfl
  | mapping => simpa [Exceeds] using packs_of_storageBytes (t := .mapping) rfl
  | struct members => simpa [Exceeds] using packs_of_storageBytes (t := .struct members) rfl

end SolType

/-- A `uint128` after a `ufixed256x18` is put inside the fixed-point member. -/
theorem fixedPoint_storage_overlaps :
    (SolType.fixedPoint 256).Valid ∧
      computeOffsets [.fixedPoint 256, .integer 128 .unsigned] =
        some ⟨[some (0, 0), some (1, 0)], 2⟩ ∧
      ranges (SolType.footprints [.fixedPoint 256, .integer 128 .unsigned])
        [some (0, 0), some (1, 0)] = [(0, 32), (16, 32)] ∧
      0 + (SolType.fixedPoint 256).storageBytes > 16 ∧
      (SolType.fixedPoint 256).storageBytes > 16 * (SolType.fixedPoint 256).storageSize := by
  refine ⟨by decide, by decide, by decide, by decide, by decide⟩

end AionFastVM.Solc
