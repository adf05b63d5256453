import RespOS.Base

/-!
# Virtual addresses, page numbers and page ranges

The address types of `mm/address.rs` on rv64. A `VirtAddr` keeps the low 39 bits of the `usize` it
is made from; `floor` and `ceil` give the page number of an address and of the first page boundary
at or above it. `VPNRange` is the half-open range `[start, stop)` of page numbers, whose constructor
asserts `start ≤ stop`: where the bounds come from outside, `VPNRange.new` is the checked
constructor and a failed assertion is `none`.

The configuration constants are those of `arch/rv64/config/mm.rs`.
-/

namespace RespOS.Mm

def pageSize : Nat := 4096

def mmapMinAddr : Nat := 0x2000000000

def mmapMaxAddr : Nat := 0x2200000000

/-- `TRAMPOLINE`, the address of the signal return page; user ranges end below it. -/
def trampoline : Nat := 0x3fffffe000

def vaWidth : Nat := 39

/-! ### Addresses -/

/-- `VirtAddr::from(usize)`: the address keeps its low `VA_WIDTH` bits. -/
def virtAddr (value : Nat) : Nat := value % 2 ^ vaWidth

/-- `VirtAddr::floor`. -/
def floorVpn (va : Nat) : Nat := va / pageSize

/-- `VirtAddr::ceil`. -/
def ceilVpn (va : Nat) : Nat := (va + pageSize - 1) / pageSize

/-- `VirtAddr::page_offset`. -/
def pageOffset (va : Nat) : Nat := va % pageSize

/-- `usize::from(VirtAddr::from(vpn))`: the address of a page, sign extended from bit 38. -/
def usizeOfVpn (vpn : Nat) : Nat :=
  let va := vpn * pageSize % 2 ^ vaWidth
  if va < 2 ^ (vaWidth - 1) then va else va + (usizeSize - 2 ^ vaWidth)

variable {value a b vpn : Nat}

theorem virtAddr_of_lt (h : value < 2 ^ vaWidth) : virtAddr value = value :=
  Nat.mod_eq_of_lt h

theorem virtAddr_of_le (h : value ≤ mmapMaxAddr) : virtAddr value = value :=
  virtAddr_of_lt (h.trans_lt (by decide))

theorem floorVpn_le_ceilVpn (h : a ≤ b) : floorVpn a ≤ ceilVpn b := by
  unfold floorVpn ceilVpn pageSize
  omega

theorem floorVpn_mono (h : a ≤ b) : floorVpn a ≤ floorVpn b := by
  unfold floorVpn pageSize
  omega

theorem floorVpn_lt_ceilVpn (h : a < b) : floorVpn a < ceilVpn b := by
  unfold floorVpn ceilVpn pageSize
  omega

/-! ### Page ranges -/

/-- `VPNRange`, the half-open range of pages `[start, stop)`. -/
structure VPNRange where
  start : Nat
  stop : Nat
  deriving DecidableEq, Repr

namespace VPNRange

/-- `SimpleRange::new`, which asserts that the range is not reversed. -/
def new (start stop : Nat) : Option VPNRange := if start ≤ stop then some ⟨start, stop⟩ else none

def contain (r : VPNRange) (vpn : Nat) : Bool := decide (r.start ≤ vpn) && decide (vpn < r.stop)

def containRange (r other : VPNRange) : Bool :=
  decide (r.start ≤ other.start) && decide (other.stop ≤ r.stop)

def intersectWith (r other : VPNRange) : Bool :=
  decide (r.start < other.stop) && decide (other.start < r.stop)

/-- The pages of the range, in the order the iterator yields them. -/
def vpns (r : VPNRange) : List Nat := List.range' r.start (r.stop - r.start)

def pageCount (r : VPNRange) : Nat := r.stop - r.start

variable {r other : VPNRange}

@[simp] theorem contain_eq_true : r.contain vpn = true ↔ r.start ≤ vpn ∧ vpn < r.stop := by
  simp [contain]

@[simp] theorem containRange_eq_true :
    r.containRange other = true ↔ r.start ≤ other.start ∧ other.stop ≤ r.stop := by
  simp [containRange]

@[simp] theorem intersectWith_eq_true :
    r.intersectWith other = true ↔ r.start < other.stop ∧ other.start < r.stop := by
  simp [intersectWith]

theorem intersectWith_eq_false :
    r.intersectWith other = false ↔ other.stop ≤ r.start ∨ r.stop ≤ other.start := by
  rw [← Bool.not_eq_true, intersectWith_eq_true]
  omega

@[simp] theorem mem_vpns : vpn ∈ r.vpns ↔ r.start ≤ vpn ∧ vpn < r.stop := by
  rw [vpns, List.mem_range'_1]
  omega

theorem nodup_vpns (r : VPNRange) : r.vpns.Nodup := List.nodup_range'

theorem new_eq_some {start stop : Nat} :
    new start stop = some r ↔ start ≤ stop ∧ r = ⟨start, stop⟩ := by
  unfold new
  split_ifs with h
  · simp [h, eq_comm]
  · simp [h]

end VPNRange

/-- A non-empty page range, as `checked_user_page_range` hands it to the memory manager. -/
structure UserRange extends VPNRange where
  nonempty : start < stop

end RespOS.Mm
