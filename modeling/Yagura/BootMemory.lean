import Yagura.PageInit

/-!
# Which pages are free at boot

`page_init` computes with the lower halves of the ends in the memory map. The
pages it marks free are those of the map as long as nothing is lost by that.
-/

namespace Yagura

open Function Prog

namespace Pages

/-! ## Usable pages -/

def BootModule.Touches (m : BootModule) (i : Nat) : Prop :=
  ∃ a, m.modStart.toNat ≤ a ∧ a < m.modEnd.toNat ∧ a / PAGE_SIZE = i

def MemoryMapEntry.entryStart (e : MemoryMapEntry) (lower : Nat) : Nat := if e.start < lower then lower else e.start

section
variable {s s' : Pages} {u : Unit} {lo hi lower : Nat} {e : MemoryMapEntry} {m : BootModule}
  {entries : List MemoryMapEntry} {mods : List BootModule} {kernelEnd : UInt32}

/-- An available entry starts before the last page below 4 GiB and ends in it at most. -/
structure Below (entries : List MemoryMapEntry) (mods : List BootModule) (kernelEnd : UInt32) : Prop where
  kernel : KERNEL_VIRT_ADDR ≤ kernelEnd.toNat
  entries : ∀ e ∈ entries, e.type = MULTIBOOT_MEMORY_AVAILABLE →
    e.addr.toNat ≤ 2 ^ 32 - PAGE_SIZE ∧ e.addr.toNat + e.len.toNat < 2 ^ 32
  mods : ∀ m ∈ mods, m.modStart < m.modEnd ∧ m.modEnd.toNat ≤ 2 ^ 32 - PAGE_SIZE

end

end Pages

end Yagura
