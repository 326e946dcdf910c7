import Modern05.Boot.LoadKernel
import Modern05.Framework.Dialogue
import Modern05.Mm.KernelTables

/-! # The boot loader

    `efi_main` in `boot_loader.c`, from the entry by the firmware to the jump into the kernel. Its
    environment is the firmware, which answers each call as it likes and may use all memory that it
    has not given away.

    What is printed is left out; a call of `Print` stands for any number of them in a row, those of
    `LoadKernel` and `dump_memory_map` included. The variables of the boot loader are not in the
    memory, apart from its page tables `t`.

    * `efi_calls_legal`: whatever the firmware answers, the boot services are left with the key of
      a memory map that is up to date, and are not used any more after that.
    * `kernel_entered`: a firmware that keeps its hands off the memory it has given away, and a file
      that fits: when the kernel is entered, its segments are where they are linked.
-/

namespace Modern05

open Memory PageTable AddressSpace
open Dialogue (call load store Environment Ensures Obeys)

/-! ## Calls of the firmware -/

structure EFI_GUID where
  Data1 : UInt32
  Data2 : UInt16
  Data3 : UInt16
  Data4 : List UInt8
  deriving DecidableEq, Repr

inductive EfiProtocol where
  | TextOut
  | SimpleFileSystem
  deriving DecidableEq, Repr

inductive EfiInfoType where
  | EFI_FILE_SYSTEM_INFO
  | EFI_FILE_INFO
  deriving DecidableEq, Repr

inductive EfiCall where
  | LibLocateProtocol (protocol : EfiProtocol)
  | Print
  | AllocatePages (Pages : Nat)
  | GetMemoryMap
  | OpenVolume
  | GetInfo (type : EfiInfoType) (Buffer BufferSize : Nat)
  | Open
  | Read (Buffer BufferSize : Nat)
  | ExitBootServices (mapKey : Nat)
  | SetVirtualAddressMap (count size version : Nat)
  deriving DecidableEq, Repr

def EFI_SUCCESS : Nat := 0

/-- The sign of the status. -/
def EFI_ERROR (status : Nat) : Bool := status / 2 ^ 63 = 1

structure EfiAnswer where
  status : Nat
  /-- The address of the pages, the key of the memory map or the number of bytes read. -/
  value : Nat
  memoryMapSize : Nat
  descriptor_size : Nat
  descriptor_version : Nat
  memory_descriptors : Bytes

/-- `efi_info`, with the memory map as the firmware has written it. -/
structure BootInfo where
  memory_descriptors : Bytes
  descriptor_size : Nat
  descriptor_count : Nat
  descriptor_version : Nat
  kernel_physical_start : Nat
  kernel_physical_size : Nat
  rsdt_phy_addr : Nat
  xsdt_phy_addr : Nat

/-- A static variable. -/
def BootInfo.zero : BootInfo := ⟨fun _ => 0, 0, 0, 0, 0, 0, 0, 0⟩

/-! ## The code -/

/-- What the boot loader finds: its own page tables, those of the firmware and the table of
    configurations. -/
structure Loader where
  t : Nat
  cr3 : Nat
  ConfigurationTable : List (EFI_GUID × Nat)

inductive BootOutcome where
  /-- Back to the firmware. -/
  | returned (status : Nat)
  /-- A call through a null pointer. -/
  | crashed
  /-- The jump, with `&efi_info` in `rdi` and `cr3`. -/
  | entered (entrypoint : Nat) (efi_info : BootInfo) (cr3 : Nat)

abbrev EfiProg (α : Type) : Type := Dialogue EfiCall EfiAnswer Bytes α

def AllocSize : Nat := (1 + 64) * 1024 * 1024
def KernelFileMaxSize : Nat := 8 * 1024 * 1024
def stackSize : Nat := 1024 * 1024
def KernelMaxSize : Nat := AllocSize - stackSize

def give_up (status : Nat) : EfiProg BootOutcome := do
  let _ ← call .Print
  pure (.returned status)

/-- A call that has to succeed. `code` is what the boot loader returns for its status. -/
def require (c : EfiCall) (code : Nat → Nat) (k : EfiAnswer → EfiProg BootOutcome) :
    EfiProg BootOutcome := do
  let a ← call c
  if a.status ≠ EFI_SUCCESS then give_up (code a.status) else k a

/-- The result is not looked at by the caller. The firmware writes through the pointers. -/
def print_memory_map (efi_info : BootInfo) : EfiProg BootInfo := do
  let a ← call .GetMemoryMap
  let efi_info := { efi_info with
    memory_descriptors := a.memory_descriptors
    descriptor_size := a.descriptor_size
    descriptor_version := a.descriptor_version }
  let _ ← call .Print
  if a.status ≠ EFI_SUCCESS then pure efi_info
  else pure { efi_info with descriptor_count := a.memoryMapSize / a.descriptor_size }

def enter_kernel (L : Loader) (efi_info : BootInfo) (kernelStart entrypoint : Nat) :
    EfiProg BootOutcome := do
  let mem ← load
  store (setup_kernel_image_page_table mem L.t L.cr3 kernelStart)
  pure (.entered entrypoint efi_info L.t)

/-- This memory map is only there for its key. -/
def exit_boot_services (L : Loader) (efi_info : BootInfo) (kernelStart entrypoint : Nat) :
    EfiProg BootOutcome :=
  require .GetMemoryMap id fun map =>
    require (.ExitBootServices map.value) id fun _ => do
      let a ← call (.SetVirtualAddressMap efi_info.descriptor_count efi_info.descriptor_size
        efi_info.descriptor_version)
      if a.status ≠ EFI_SUCCESS then
        -- the message goes to the serial port
        pure (.returned 1)
      else enter_kernel L efi_info kernelStart entrypoint

def ACPI20_GUID : EFI_GUID :=
  ⟨0x8868e871, 0xe4f1, 0x11d3, [0xbc, 0x22, 0x00, 0x80, 0xc7, 0x3c, 0x88, 0x81]⟩

/-- The first entry with the identifier. -/
def find_rsdp (table : List (EFI_GUID × Nat)) : Nat :=
  match table.find? (·.1 = ACPI20_GUID) with
  | some entry => entry.2
  | none => 0

/-- "RSD PTR " -/
def rsdp_magic : List UInt8 := [0x52, 0x53, 0x44, 0x20, 0x50, 0x54, 0x52, 0x20]

def locate_acpi (L : Loader) (efi_info : BootInfo) (kernelStart entrypoint : Nat) :
    EfiProg BootOutcome := do
  let rsdp := find_rsdp L.ConfigurationTable
  if rsdp = 0 then give_up 1
  else
    let _ ← call .Print
    let mem ← load
    if bytes mem rsdp 8 ≠ rsdp_magic then give_up 1
    else
      let efi_info := { efi_info with
        rsdt_phy_addr := Memory.load_le mem (rsdp + 16) 4
        xsdt_phy_addr := Memory.load_le mem (rsdp + 24) 8 }
      let _ ← call .Print
      exit_boot_services L efi_info kernelStart entrypoint

/-- The entry point, which is 0 for a failure, and the memory after the call. -/
def LoadKernel (kernelStart Buffer BufferSize : Nat) (mem : Bytes) : Nat × Bytes :=
  match (boot_load kernelStart KernelMaxSize Buffer BufferSize).run mem with
  | (.ok r, mem) => (r.entry, mem)
  -- every address is mapped, so there is no fault
  | (.error _, mem) => (0, mem)

def start_kernel (L : Loader) (efi_info : BootInfo) (kernelStart Buffer BufferSize : Nat) :
    EfiProg BootOutcome := do
  let _ ← call .Print
  let mem ← load
  let (entrypoint, mem) := LoadKernel kernelStart Buffer BufferSize mem
  store mem
  let _ ← call .Print
  if entrypoint = 0 then give_up 1
  else
    let efi_info := { efi_info with
      kernel_physical_start := kernelStart
      kernel_physical_size := KernelMaxSize }
    locate_acpi L efi_info kernelStart entrypoint

def read_kernel (L : Loader) (efi_info : BootInfo) (kernelStart Buffer : Nat) :
    EfiProg BootOutcome :=
  require (.Read Buffer KernelFileMaxSize) (fun _ => 1) fun r =>
    start_kernel L efi_info kernelStart Buffer r.value

/-- The buffer for the file is used for what is asked about the volume and the file before. The
    length that is passed for the second of them is that of another buffer. -/
def open_kernel (L : Loader) (efi_info : BootInfo) (kernelStart Buffer : Nat) :
    EfiProg BootOutcome := do
  let p ← call (.LibLocateProtocol .SimpleFileSystem)
  if EFI_ERROR p.status then
    -- the status is not looked at, and the pointer is null
    pure .crashed
  else
    require .OpenVolume (fun _ => 1) fun _ =>
      require (.GetInfo .EFI_FILE_SYSTEM_INFO Buffer KernelFileMaxSize) (fun _ => 1) fun _ => do
        let _ ← call .Print
        require .Open (fun _ => 1) fun _ =>
          require (.GetInfo .EFI_FILE_INFO Buffer KernelMaxSize) (fun _ => 1) fun _ => do
            let _ ← call .Print
            let mem ← load
            let FileSize := Memory.load_le mem (Buffer + 8) 8
            if FileSize > KernelFileMaxSize then give_up 1
            else read_kernel L efi_info kernelStart Buffer

def efi_main (L : Loader) : EfiProg BootOutcome := do
  let p ← call (.LibLocateProtocol .TextOut)
  if EFI_ERROR p.status then give_up p.status
  else
    let _ ← call .Print
    require (.AllocatePages (AllocSize / 4096)) id fun PhysicalBuffer => do
      let _ ← call .Print
      require (.AllocatePages (KernelFileMaxSize / 4096)) id fun PhysicalBufferKernelFile => do
        let kernelStart := PhysicalBuffer.value + stackSize
        let efi_info ← print_memory_map .zero
        open_kernel L efi_info kernelStart PhysicalBufferKernelFile.value

/-! ## The order of the calls -/

/-- The boot services are there, possibly with a key that is up to date, or they are left. -/
inductive BootPhase where
  | services
  | keyed (mapKey : Nat)
  | exited
  deriving DecidableEq, Repr

/-- The rules of the firmware. Any call makes a key invalid. -/
def boot_monitor : BootPhase → EfiCall × EfiAnswer → Option BootPhase
  | .exited, (.SetVirtualAddressMap _ _ _, _) => some .exited
  | .exited, _ => none
  | _, (.SetVirtualAddressMap _ _ _, _) => none
  | .keyed mapKey, (.ExitBootServices key, a) =>
    if key = mapKey then some (if a.status = EFI_SUCCESS then .exited else .services) else none
  | .services, (.ExitBootServices _, _) => none
  | _, (.GetMemoryMap, a) =>
    some (if a.status = EFI_SUCCESS then .keyed a.value else .services)
  | _, _ => some .services

/-- Where the boot services are when the boot loader is left. -/
def BootOutcome.FitsPhase : BootOutcome → BootPhase → Prop
  | .returned status, phase => phase = .exited → status = 1
  | .crashed, phase => phase ≠ .exited
  | .entered _ _ _, phase => phase = .exited

section order

variable {phase : BootPhase}

/-- The boot services that the rules say nothing special about. -/
def EfiCall.Ordinary : EfiCall → Prop
  | .GetMemoryMap | .ExitBootServices _ | .SetVirtualAddressMap _ _ _ => False
  | _ => True

/-- They are allowed as long as there are boot services, and leave no key. -/
theorem boot_monitor_ordinary {c : EfiCall} (hc : c.Ordinary) (hphase : phase ≠ .exited)
    (a : EfiAnswer) : boot_monitor phase (c, a) = some .services := by
  cases phase with
  | exited => exact absurd rfl hphase
  | services => cases c <;> first | rfl | exact hc.elim
  | keyed mapKey => cases c <;> first | rfl | exact hc.elim

theorem obeys_ordinary {c : EfiCall} (hc : c.Ordinary) (hphase : phase ≠ .exited)
    {Q : EfiAnswer → BootPhase → Prop} (h : ∀ a, Q a .services) :
    Obeys boot_monitor (call c : EfiProg EfiAnswer) phase Q :=
  .call fun a => ⟨.services, boot_monitor_ordinary hc hphase a, h a⟩

theorem obeys_give_up (hphase : phase ≠ .exited) (status : Nat) :
    Obeys boot_monitor (give_up status) phase BootOutcome.FitsPhase :=
  .bind (obeys_ordinary (by trivial) hphase fun _ => .pure fun h => nomatch h)

theorem obeys_require {c : EfiCall} (hc : c.Ordinary) (hphase : phase ≠ .exited) (code : Nat → Nat)
    {k : EfiAnswer → EfiProg BootOutcome}
    (hk : ∀ a, Obeys boot_monitor (k a) .services BootOutcome.FitsPhase) :
    Obeys boot_monitor (require c code k) phase BootOutcome.FitsPhase := by
  refine .bind (obeys_ordinary hc hphase fun a => .ite (fun _ => ?_) (fun _ => hk a))
  exact obeys_give_up (by decide) _

/-- The memory map, and the exit with its key. -/
theorem obeys_exit_boot_services (L : Loader) (efi_info : BootInfo) (kernelStart entrypoint : Nat) :
    Obeys boot_monitor (exit_boot_services L efi_info kernelStart entrypoint) .services
      BootOutcome.FitsPhase := by
  refine .bind (.call fun map => ⟨_, rfl, .ite (fun hmap => ?_) (fun hmap => ?_)⟩)
  · rw [if_neg hmap]
    exact obeys_give_up (by decide) _
  · rw [if_pos (not_not.mp hmap)]
    refine .bind (.call fun a => ⟨_, if_pos rfl, .ite (fun ha => ?_) (fun ha => ?_)⟩)
    · rw [if_neg ha]
      exact obeys_give_up (by decide) _
    · rw [if_pos (not_not.mp ha)]
      refine .bind (.call fun a => ⟨.exited, rfl, .ite (fun _ => ?_) (fun _ => ?_)⟩)
      · exact .pure fun _ => rfl
      · exact .bind (.load fun mem => .bind (.store (.pure rfl)))

theorem obeys_print_memory_map (efi_info : BootInfo) {Q : BootInfo → BootPhase → Prop}
    (h : ∀ efi_info, Q efi_info .services) :
    Obeys boot_monitor (print_memory_map efi_info) .services Q := by
  refine .bind (.call fun a => ⟨_, rfl, .bind ?_⟩)
  have hphase : (if a.status = EFI_SUCCESS then BootPhase.keyed a.value else .services) ≠
      .exited := by
    split <;> exact fun h => nomatch h
  refine obeys_ordinary (by trivial) hphase fun _ => ?_
  exact .ite (fun _ => .pure (h _)) (fun _ => .pure (h _))

theorem obeys_print {p : EfiProg BootOutcome}
    (h : Obeys boot_monitor p .services BootOutcome.FitsPhase) :
    Obeys boot_monitor (call .Print >>= fun _ => p) .services BootOutcome.FitsPhase :=
  .bind (obeys_ordinary (by trivial) (by decide) fun _ => h)

theorem obeys_locate_acpi (L : Loader) (efi_info : BootInfo) (kernelStart entrypoint : Nat) :
    Obeys boot_monitor (locate_acpi L efi_info kernelStart entrypoint) .services
      BootOutcome.FitsPhase := by
  have hgive_up : ∀ status, Obeys boot_monitor (give_up status) .services BootOutcome.FitsPhase :=
    obeys_give_up (by decide)
  refine .ite (fun _ => hgive_up _) fun _ => obeys_print (.bind (.load fun mem => ?_))
  refine .ite (fun _ => hgive_up _) fun _ => obeys_print ?_
  exact obeys_exit_boot_services _ _ _ _

theorem obeys_read_kernel (L : Loader) (efi_info : BootInfo) (kernelStart Buffer : Nat) :
    Obeys boot_monitor (read_kernel L efi_info kernelStart Buffer) .services
      BootOutcome.FitsPhase := by
  refine obeys_require (by trivial) (by decide) _ fun r => obeys_print ?_
  refine .bind (.load fun mem => .bind (.store (obeys_print (.ite (fun _ => ?_) fun _ => ?_))))
  · exact obeys_give_up (by decide) _
  · exact obeys_locate_acpi _ _ _ _

theorem obeys_open_kernel (L : Loader) (efi_info : BootInfo) (kernelStart Buffer : Nat) :
    Obeys boot_monitor (open_kernel L efi_info kernelStart Buffer) .services
      BootOutcome.FitsPhase := by
  have hservices : BootPhase.services ≠ .exited := by decide
  unfold open_kernel
  refine .bind (obeys_ordinary (by trivial) hservices fun p => .ite (fun _ => ?_) fun _ => ?_)
  · exact .pure hservices
  · refine obeys_require (by trivial) hservices _ fun _ => ?_
    refine obeys_require (by trivial) hservices _ fun _ => obeys_print ?_
    refine obeys_require (by trivial) hservices _ fun _ => ?_
    refine obeys_require (by trivial) hservices _ fun _ => obeys_print (.bind (.load fun mem => ?_))
    refine .ite (fun _ => obeys_give_up hservices _) fun _ => ?_
    exact obeys_read_kernel _ _ _ _

theorem obeys_efi_main (L : Loader) :
    Obeys boot_monitor (efi_main L) .services BootOutcome.FitsPhase := by
  have hservices : BootPhase.services ≠ .exited := by decide
  refine .bind (obeys_ordinary (by trivial) hservices fun p => .ite (fun _ => ?_) fun _ => ?_)
  · exact obeys_give_up hservices _
  · refine obeys_print (obeys_require (by trivial) hservices _ fun a => obeys_print ?_)
    refine obeys_require (by trivial) hservices _ fun b => .bind ?_
    exact obeys_print_memory_map _ fun efi_info => obeys_open_kernel _ _ _ _

end order

/-- **Leaving the boot services.** In every environment, the calls of `efi_main` follow the rules:
    the services are left with the key of the memory map that was read by the call before, and no
    boot service is called after that. The kernel is only entered without them. The boot loader can
    return to the firmware when they are gone, with the result 1. -/
theorem efi_calls_legal {σ : Type} (env : Environment EfiCall EfiAnswer Bytes σ) (e : σ)
    (mem : Bytes) (L : Loader) :
    ∃ phase, ((efi_main L).run env e mem).trace.foldlM boot_monitor .services = some phase ∧
      ((efi_main L).run env e mem).result.FitsPhase phase :=
  (obeys_efi_main L).trace env e mem

/-! ## The tables of the boot loader -/

section tables

variable {t cr3 kernelStart : Nat}

def boot_table_bytes (t : Nat) : Set Nat := Set.Ico t (t + sizeof_KernelImagePageTable 1)

/-- All but the first entry is written behind it. -/
theorem changesOnly_boot_tables (mem : Bytes) (t cr3 kernelStart : Nat) :
    let m := clear mem t (sizeof_KernelImagePageTable 1)
    ChangesOnly (Set.Ico (t + 8) (t + sizeof_KernelImagePageTable 1))
      (store64 m t (load64 m cr3)) (setup_kernel_image_page_table mem t cr3 kernelStart) := by
  have hsize : sizeof_KernelImagePageTable 1 = 8400896 := rfl
  have hspace : KERNEL_SPACE_PAGES = 1048576 := rfl
  have hper_table : PAGES_PER_TABLE = 512 := rfl
  have hpdpt : pdpt_addr t 0 = t + 4096 := rfl
  have hpdt : pdt_addr t 0 = t + 8192 := rfl
  have hpt : window_pt_addr 1 t 0 = t + 8192 + 4096 * 1 := rfl
  have hwithin : ∀ {a n}, t + 8 ≤ a → a + n ≤ t + sizeof_KernelImagePageTable 1 →
      Set.Ico a (a + n) ⊆ Set.Ico (t + 8) (t + sizeof_KernelImagePageTable 1) :=
    fun hlow hhigh => Set.Ico_subset_Ico hlow hhigh
  have h₁ := fun m gs => (changesOnly_assign_all m (t + 8 * 256) gs).mono
    (hwithin (by omega) (by omega))
  have h₂ := fun m gs => (changesOnly_assign_all m (pdpt_addr t 0) gs).mono
    (hwithin (by omega) (by omega))
  have h₃ := fun m gs => (changesOnly_fill_fields m (pdt_addr t 0) gs PAGES_PER_TABLE).mono
    (hwithin (by omega) (by omega))
  have h₄ := fun m gs gs' => (changesOnly_pt_passes m (window_pt_addr 1 t 0) gs gs').mono
    (hwithin (by omega) (by omega))
  exact (h₁ _ _).trans ((h₂ _ _).trans ((h₃ _ _).trans (h₄ _ _ _)))

theorem changesOnly_cleared_boot_tables (mem : Bytes) (t cr3 kernelStart : Nat) :
    ChangesOnly (boot_table_bytes t) (clear mem t (sizeof_KernelImagePageTable 1))
      (setup_kernel_image_page_table mem t cr3 kernelStart) := by
  have hsize : sizeof_KernelImagePageTable 1 = 8400896 := rfl
  have hfirst : ∀ m w, ChangesOnly (boot_table_bytes t) m (store64 m t w) :=
    fun m w => .overwrite _ (Set.Ico_subset_Ico (Nat.le_refl _) (by omega))
  have hothers := (changesOnly_boot_tables mem t cr3 kernelStart).mono
    (Set.Ico_subset_Ico_left (Nat.le_add_right t 8))
  exact (hfirst _ _).trans hothers

theorem changesOnly_setup_kernel_image_page_table (mem : Bytes) (t cr3 kernelStart : Nat) :
    ChangesOnly (boot_table_bytes t) mem (setup_kernel_image_page_table mem t cr3 kernelStart) := by
  have hclear : ChangesOnly (boot_table_bytes t) mem
      (clear mem t (sizeof_KernelImagePageTable 1)) := .overwrite _ (Set.Subset.refl _)
  exact hclear.trans (changesOnly_cleared_boot_tables mem t cr3 kernelStart)

/-- **The switch of `cr3` moves no address of the lower half**, as far as its first entry goes: it
    is the entry of the firmware. -/
theorem walk_boot_tables (mem : Bytes) (haligned : t % 4096 = 0) (hcr3 : cr3 % 4096 = 0)
    (hapart : Disjoint (Set.Ico cr3 (cr3 + 8)) (boot_table_bytes t)) {vpage : Nat}
    (hv : vpage < 2 ^ 27) :
    walk (setup_kernel_image_page_table mem t cr3 kernelStart) 4 (t / 4096) vpage =
      walk (setup_kernel_image_page_table mem t cr3 kernelStart) 4 (cr3 / 4096) vpage := by
  have hsize : sizeof_KernelImagePageTable 1 = 8400896 := rfl
  let m := clear mem t (sizeof_KernelImagePageTable 1)
  have htables := changesOnly_boot_tables mem t cr3 kernelStart
  have hentries : ∀ {a}, a % 4096 = 0 → entry_addr 3 (a / 4096) vpage = a := by
    intro a ha
    rw [entry_addr]
    omega
  -- the first entry is that of the firmware after the tables were cleared
  have hfirst : load64 (setup_kernel_image_page_table mem t cr3 kernelStart) t = load64 m cr3 := by
    have hbehind : Disjoint (Set.Ico (t + 8) (t + sizeof_KernelImagePageTable 1))
        (Set.Ico t (t + 8)) := by
      rw [Set.Ico_disjoint_Ico]
      omega
    rw [htables.load64 hbehind]
    exact load64_store64 _ _ (load64_lt _ _)
  have hkept : load64 (setup_kernel_image_page_table mem t cr3 kernelStart) cr3 = load64 m cr3 :=
    (changesOnly_cleared_boot_tables mem t cr3 kernelStart).load64 hapart.symm
  conv_lhs => rw [walk, hentries haligned, hfirst]
  conv_rhs => rw [walk, hentries hcr3, hkept]

end tables

/-! ## A firmware that keeps to its memory -/

/-- The memory of the boot loader that a call is asked to write. -/
def EfiCall.buffer : EfiCall → Set Nat
  | .GetInfo _ Buffer BufferSize => Set.Ico Buffer (Buffer + BufferSize)
  | .Read Buffer BufferSize => Set.Ico Buffer (Buffer + BufferSize)
  | _ => ∅

/-- A firmware with the file of a kernel. It knows the memory that belongs to the boot loader, and
    leaves it alone. -/
structure Firmware (σ : Type) where
  answer : Environment EfiCall EfiAnswer Bytes σ
  owned : σ → Set Nat
  kernel : Bytes
  kernel_size : Nat
  owned_mono : ∀ c e m, owned e ⊆ owned (answer c e m).2.2
  frame : ∀ c e m, ChangesOnly ((owned e)ᶜ ∪ c.buffer) m (answer c e m).2.1
  allocates : ∀ n e m, (answer (.AllocatePages n) e m).1.status = EFI_SUCCESS →
    let a := (answer (.AllocatePages n) e m).1.value
    a % 4096 = 0 ∧ a + 4096 * n ≤ 2 ^ 48 ∧ Disjoint (Set.Ico a (a + 4096 * n)) (owned e) ∧
      Set.Ico a (a + 4096 * n) ⊆ owned (answer (.AllocatePages n) e m).2.2
  file_info : ∀ b n e m, (answer (.GetInfo .EFI_FILE_INFO b n) e m).1.status = EFI_SUCCESS →
    Memory.load_le (answer (.GetInfo .EFI_FILE_INFO b n) e m).2.1 (b + 8) 8 = kernel_size
  reads : ∀ b n e m, (answer (.Read b n) e m).1.status = EFI_SUCCESS →
    (answer (.Read b n) e m).1.value = min n kernel_size ∧
      ∀ o < min n kernel_size, (answer (.Read b n) e m).2.1 (b + o) = kernel o

/-- The file is a kernel that the boot loader can load. -/
structure Firmware.Bootable {σ : Type} (fw : Firmware σ) : Prop where
  well_formed : WellFormed fw.kernel fw.kernel_size
  window : SegmentsIn fw.kernel KERNEL_START (KERNEL_START + KernelMaxSize)

/-- The page tables of the boot loader are its own. -/
structure Loader.Fits {σ : Type} (L : Loader) (fw : Firmware σ) (e : σ) : Prop where
  tables : boot_table_bytes L.t ⊆ fw.owned e
  aligned : L.t % 4096 = 0
  bound : L.t + sizeof_KernelImagePageTable 1 ≤ 2 ^ 52

section firmware

variable {σ : Type} {fw : Firmware σ} {L : Loader} {e : σ} {mem : Bytes}
  {kernelStart Buffer entrypoint : Nat} {efi_info : BootInfo}

theorem Loader.Fits.next (h : L.Fits fw e) (c : EfiCall) (m : Bytes) :
    L.Fits fw (fw.answer c e m).2.2 :=
  ⟨h.tables.trans (fw.owned_mono c e m), h.aligned, h.bound⟩

/-- A call without a buffer leaves the memory of the boot loader as it is. -/
theorem Firmware.keeps (fw : Firmware σ) {c : EfiCall} (hc : c.buffer = ∅) {S : Set Nat}
    (hS : S ⊆ fw.owned e) {a : Nat} (ha : a ∈ S) : (fw.answer c e mem).2.1 a = mem a := by
  refine fw.frame c e mem a fun h => ?_
  rw [hc, Set.union_empty] at h
  exact h (hS ha)

/-- The two allocations of the boot loader. -/
structure Buffers (fw : Firmware σ) (L : Loader) (kernelStart Buffer : Nat) (e : σ) : Prop
    extends L.Fits fw e where
  area : kernel_area kernelStart KernelMaxSize ⊆ fw.owned e
  file : Set.Ico Buffer (Buffer + KernelFileMaxSize) ⊆ fw.owned e
  area_file : Disjoint (kernel_area kernelStart KernelMaxSize)
    (Set.Ico Buffer (Buffer + KernelFileMaxSize))
  area_tables : Disjoint (kernel_area kernelStart KernelMaxSize) (boot_table_bytes L.t)
  start_aligned : kernelStart % 4096 = 0
  start_le : kernelStart + KernelMaxSize ≤ 2 ^ 48
  buffer_le : Buffer + KernelFileMaxSize ≤ 2 ^ 48

theorem Buffers.next (h : Buffers fw L kernelStart Buffer e) (c : EfiCall) (m : Bytes) :
    Buffers fw L kernelStart Buffer (fw.answer c e m).2.2 :=
  ⟨h.toFits.next c m, h.area.trans (fw.owned_mono c e m), h.file.trans (fw.owned_mono c e m),
    h.area_file, h.area_tables, h.start_aligned, h.start_le, h.buffer_le⟩

/-- The segments of the kernel are in its area, as far as the file has bytes for them. -/
def SegmentsAt (fw : Firmware σ) (kernelStart : Nat) (mem : Bytes) : Prop :=
  ∀ ph ∈ segments fw.kernel, ∀ k < ph.p_memsz, ph.p_offset + k < fw.kernel_size →
    mem (kernelStart + (ph.p_vaddr - KERNEL_START) + k) = fw.kernel (ph.p_offset + k)

theorem segment_mem_area (hboot : fw.Bootable) {ph : Elf64_Phdr} (hph : ph ∈ segments fw.kernel)
    {k : Nat} (hk : k < ph.p_memsz) :
    kernelStart + (ph.p_vaddr - KERNEL_START) + k ∈ kernel_area kernelStart KernelMaxSize := by
  obtain ⟨hlow, hhigh⟩ := hboot.window.inside ph hph
  rw [kernel_area, Set.mem_Ico]
  omega

/-- They stay there as long as the area is not written. -/
theorem SegmentsAt.congr (hboot : fw.Bootable) (h : SegmentsAt fw kernelStart mem) {mem' : Bytes}
    (hmem : ∀ a ∈ kernel_area kernelStart KernelMaxSize, mem' a = mem a) :
    SegmentsAt fw kernelStart mem' := by
  intro ph hph k hk ho
  rw [hmem _ (segment_mem_area hboot hph hk)]
  exact h ph hph k hk ho

/-- The kernel is loaded, and what the boot loader knows about it. -/
structure Placed (fw : Firmware σ) (L : Loader) (kernelStart Buffer entrypoint : Nat)
    (efi_info : BootInfo) (e : σ) (mem : Bytes) : Prop
    extends Buffers fw L kernelStart Buffer e where
  segments : SegmentsAt fw kernelStart mem
  start : efi_info.kernel_physical_start = kernelStart
  size : efi_info.kernel_physical_size = KernelMaxSize
  entry : entrypoint = e_entry fw.kernel

theorem Placed.next (hboot : fw.Bootable)
    (h : Placed fw L kernelStart Buffer entrypoint efi_info e mem) {c : EfiCall}
    (hc : c.buffer = ∅) :
    Placed fw L kernelStart Buffer entrypoint efi_info (fw.answer c e mem).2.2
      (fw.answer c e mem).2.1 :=
  ⟨h.toBuffers.next c mem, h.segments.congr hboot fun _ ha => fw.keeps hc h.area ha, h.start,
    h.size, h.entry⟩

/-- What the kernel finds when it is entered: its entry point, its segments at the addresses they
    are linked at, the image followed by the identity map, and the lower half as it was. A segment
    may go on behind the end of the file. -/
structure KernelEntered (fw : Firmware σ) (L : Loader) (entrypoint : Nat) (efi_info : BootInfo)
    (mem : Bytes) : Prop where
  entry : entrypoint = e_entry fw.kernel
  start_aligned : efi_info.kernel_physical_start % PAGE_SIZE = 0
  size : efi_info.kernel_physical_size = KernelMaxSize
  segments : ∀ ph ∈ segments fw.kernel, ∀ k < ph.p_memsz, ∃ a,
    window_translate mem L.t (ph.p_vaddr - KERNEL_START + k) = some a ∧
      (ph.p_offset + k < fw.kernel_size → mem a = fw.kernel (ph.p_offset + k))
  window : ∀ o < 2 ^ 30, window_translate mem L.t o =
    some (if o < KERNEL_IMAGE_PAGES * PAGE_SIZE then efi_info.kernel_physical_start + o else o)
  low : L.cr3 % 4096 = 0 → Disjoint (Set.Ico L.cr3 (L.cr3 + 8)) (boot_table_bytes L.t) →
    ∀ v < 2 ^ 27, walk mem 4 (L.t / 4096) v = walk mem 4 (L.cr3 / 4096) v

/-- The jump is made with the kernel in place. -/
def BootOutcome.InPlace (fw : Firmware σ) (L : Loader) : BootOutcome → σ → Bytes → Prop
  | .entered entrypoint efi_info cr3, _, mem =>
    cr3 = L.t ∧ KernelEntered fw L entrypoint efi_info mem
  | _, _, _ => True

/-- **The last step**: the tables are built, and the kernel is in place. -/
theorem ensures_enter_kernel (hboot : fw.Bootable)
    (h : Placed fw L kernelStart Buffer entrypoint efi_info e mem) :
    Ensures fw.answer (enter_kernel L efi_info kernelStart entrypoint) e mem
      (BootOutcome.InPlace fw L) := by
  have himage : KERNEL_IMAGE_PAGES * PAGE_SIZE = KernelMaxSize := by decide
  have hpages : KERNEL_IMAGE_PAGES = 16384 := rfl
  have hmax : KernelMaxSize = 0x4000000 := rfl
  have hstart_le := h.start_le
  have hwindow : ∀ o < 2 ^ 30, window_translate
      (setup_kernel_image_page_table mem L.t L.cr3 kernelStart) L.t o =
        some (if o < KERNEL_IMAGE_PAGES * PAGE_SIZE then kernelStart + o else o) := by
    intro o ho
    rw [window_translate_eq (window_boot mem L.cr3 h.aligned h.bound (by omega)) h.aligned
      (by decide) (by omega), window_page_addr h.start_aligned]
  have hkept : SegmentsAt fw kernelStart
      (setup_kernel_image_page_table mem L.t L.cr3 kernelStart) :=
    h.segments.congr hboot fun a ha =>
      changesOnly_setup_kernel_image_page_table mem L.t L.cr3 kernelStart a
        (Set.disjoint_left.mp h.area_tables ha)
  refine .bind (.load (.bind (.store (.pure ⟨rfl, h.entry, ?_, h.size, ?_, ?_, ?_⟩))))
  · rw [h.start]
    exact h.start_aligned
  · intro ph hph k hk
    obtain ⟨hlow, hhigh⟩ := hboot.window.inside ph hph
    refine ⟨_, hwindow _ (by omega), ?_⟩
    rw [if_pos (by omega), ← Nat.add_assoc]
    exact hkept ph hph k hk
  · rw [h.start]
    exact hwindow
  · intro hcr3 hapart v hv
    exact walk_boot_tables mem h.aligned hcr3 hapart hv

/-! ### The way to the last step

    Each stage goes back to the firmware, or on to the next one with what was so before and what
    the call has brought. -/

section stages

variable {I : σ → Bytes → Prop} {c : EfiCall} {k : EfiAnswer → EfiProg BootOutcome}

theorem ensures_give_up (status : Nat) :
    Ensures fw.answer (give_up status) e mem (BootOutcome.InPlace fw L) :=
  .bind (.call (.pure trivial))

/-- The program goes on with what holds after the call. -/
theorem ensures_call (hnext : I (fw.answer c e mem).2.2 (fw.answer c e mem).2.1)
    (hk : ∀ a e mem, I e mem → Ensures fw.answer (k a) e mem (BootOutcome.InPlace fw L)) :
    Ensures fw.answer (call c >>= k) e mem (BootOutcome.InPlace fw L) :=
  .bind (.call (hk _ _ _ hnext))

/-- It goes on with what holds for the answer, if the call succeeds. -/
theorem ensures_require_answer {A : EfiAnswer → σ → Bytes → Prop} {code : Nat → Nat}
    (hnext : (fw.answer c e mem).1.status = EFI_SUCCESS →
      A (fw.answer c e mem).1 (fw.answer c e mem).2.2 (fw.answer c e mem).2.1)
    (hk : ∀ a e mem, A a e mem → Ensures fw.answer (k a) e mem (BootOutcome.InPlace fw L)) :
    Ensures fw.answer (require c code k) e mem (BootOutcome.InPlace fw L) := by
  refine .bind (.call (.ite (fun _ => ensures_give_up _) fun hstatus => ?_))
  exact hk _ _ _ (hnext (not_not.mp hstatus))

theorem ensures_require {code : Nat → Nat}
    (hnext : (fw.answer c e mem).1.status = EFI_SUCCESS →
      I (fw.answer c e mem).2.2 (fw.answer c e mem).2.1)
    (hk : ∀ a e mem, I e mem → Ensures fw.answer (k a) e mem (BootOutcome.InPlace fw L)) :
    Ensures fw.answer (require c code k) e mem (BootOutcome.InPlace fw L) :=
  ensures_require_answer (A := fun _ => I) hnext hk

end stages

theorem ensures_exit_boot_services (hboot : fw.Bootable)
    (h : Placed fw L kernelStart Buffer entrypoint efi_info e mem) :
    Ensures fw.answer (exit_boot_services L efi_info kernelStart entrypoint) e mem
      (BootOutcome.InPlace fw L) := by
  refine ensures_require (fun _ => h.next hboot rfl) fun map e mem h => ?_
  refine ensures_require (fun _ => h.next hboot rfl) fun _ e mem h => ?_
  refine ensures_call (h.next hboot rfl) fun a e mem h => ?_
  exact .ite (fun _ => .pure trivial) fun _ => ensures_enter_kernel hboot h

theorem ensures_locate_acpi (hboot : fw.Bootable)
    (h : Placed fw L kernelStart Buffer entrypoint efi_info e mem) :
    Ensures fw.answer (locate_acpi L efi_info kernelStart entrypoint) e mem
      (BootOutcome.InPlace fw L) := by
  refine .ite (fun _ => ensures_give_up _) fun _ => ?_
  refine ensures_call (h.next hboot rfl) fun _ e mem h => .bind (.load ?_)
  refine .ite (fun _ => ensures_give_up _) fun _ => ?_
  refine ensures_call (h.next hboot rfl) fun _ e mem h => ?_
  exact ensures_exit_boot_services hboot ⟨h.toBuffers, h.segments, h.start, h.size, h.entry⟩

/-- The file that was read is loaded. -/
theorem load_kernel_in_place (hboot : fw.Bootable) (hb : Buffers fw L kernelStart Buffer e)
    (hfits : fw.kernel_size ≤ KernelFileMaxSize)
    (hfile : ∀ o < fw.kernel_size, mem (Buffer + o) = fw.kernel o) :
    (LoadKernel kernelStart Buffer fw.kernel_size mem).1 = e_entry fw.kernel ∧
      SegmentsAt fw kernelStart (LoadKernel kernelStart Buffer fw.kernel_size mem).2 := by
  have hmax : KernelMaxSize = 0x4000000 := rfl
  have hfile_max : KernelFileMaxSize = 0x800000 := rfl
  have hstart := hb.start_le
  have hbuffer := hb.buffer_le
  have hkernel : KernelFile mem fw.kernel kernelStart KernelMaxSize Buffer fw.kernel_size :=
    { size_lt := by omega
      max_lt := by omega
      area_le := by omega
      buffer_le := by omega
      well_formed := hboot.well_formed
      window := hboot.window
      file := hfile
      apart := hb.area_file.mono_right (Set.Ico_subset_Ico_right (by omega)) }
  obtain ⟨r, mem', hrun, hentry, hloaded⟩ := hkernel.run_boot
  have hload : LoadKernel kernelStart Buffer fw.kernel_size mem = (r.entry, mem') := by
    rw [LoadKernel, hrun]
  rw [hload]
  exact ⟨hentry, hloaded.data⟩

/-- The file is in its buffer. -/
structure FileRead (fw : Firmware σ) (L : Loader) (kernelStart Buffer : Nat) (e : σ)
    (mem : Bytes) : Prop extends Buffers fw L kernelStart Buffer e where
  bytes : ∀ o < fw.kernel_size, mem (Buffer + o) = fw.kernel o

theorem FileRead.next (h : FileRead fw L kernelStart Buffer e mem)
    (hfits : fw.kernel_size ≤ KernelFileMaxSize) {c : EfiCall} (hc : c.buffer = ∅) :
    FileRead fw L kernelStart Buffer (fw.answer c e mem).2.2 (fw.answer c e mem).2.1 := by
  refine ⟨h.toBuffers.next c mem, fun o ho => ?_⟩
  have hmem : Buffer + o ∈ Set.Ico Buffer (Buffer + KernelFileMaxSize) := ⟨by omega, by omega⟩
  rw [fw.keeps hc h.file hmem]
  exact h.bytes o ho

theorem ensures_start_kernel (hboot : fw.Bootable) (h : FileRead fw L kernelStart Buffer e mem)
    (hfits : fw.kernel_size ≤ KernelFileMaxSize) :
    Ensures fw.answer (start_kernel L efi_info kernelStart Buffer fw.kernel_size) e mem
      (BootOutcome.InPlace fw L) := by
  refine ensures_call (h.next hfits rfl) fun _ e mem h => .bind (.load ?_)
  obtain ⟨hentry, hsegments⟩ := load_kernel_in_place hboot h.toBuffers hfits h.bytes
  have hplaced : Placed fw L kernelStart Buffer
      (LoadKernel kernelStart Buffer fw.kernel_size mem).1 { efi_info with
        kernel_physical_start := kernelStart
        kernel_physical_size := KernelMaxSize } e
      (LoadKernel kernelStart Buffer fw.kernel_size mem).2 :=
    ⟨h.toBuffers, hsegments, rfl, rfl, hentry⟩
  refine .bind (.store (ensures_call (hplaced.next hboot rfl) fun _ e mem hplaced => ?_))
  exact .ite (fun _ => ensures_give_up _) fun _ => ensures_locate_acpi hboot hplaced

theorem ensures_read_kernel (hboot : fw.Bootable) (hb : Buffers fw L kernelStart Buffer e)
    (hfits : fw.kernel_size ≤ KernelFileMaxSize) :
    Ensures fw.answer (read_kernel L efi_info kernelStart Buffer) e mem
      (BootOutcome.InPlace fw L) := by
  refine .bind (.call (.ite (fun _ => ensures_give_up _) fun hstatus => ?_))
  obtain ⟨hvalue, hbytes⟩ := fw.reads _ _ _ _ (not_not.mp hstatus)
  rw [Nat.min_eq_right hfits] at hvalue hbytes
  beta_reduce
  rw [hvalue]
  exact ensures_start_kernel hboot ⟨hb.next _ _, hbytes⟩ hfits

/-- What the firmware says about the file is in the buffer. -/
structure FileKnown (fw : Firmware σ) (L : Loader) (kernelStart Buffer : Nat) (e : σ)
    (mem : Bytes) : Prop extends Buffers fw L kernelStart Buffer e where
  FileSize : Memory.load_le mem (Buffer + 8) 8 = fw.kernel_size

theorem FileKnown.next (h : FileKnown fw L kernelStart Buffer e mem) {c : EfiCall}
    (hc : c.buffer = ∅) :
    FileKnown fw L kernelStart Buffer (fw.answer c e mem).2.2 (fw.answer c e mem).2.1 := by
  refine ⟨h.toBuffers.next c mem, ?_⟩
  have hmax : KernelFileMaxSize = 0x800000 := rfl
  have hkept : ∀ i < 8, (fw.answer c e mem).2.1 (Buffer + 8 + i) = mem (Buffer + 8 + i) :=
    fun i hi => fw.keeps hc h.file ⟨by omega, by omega⟩
  rw [load_le_congr hkept]
  exact h.FileSize

theorem ensures_open_kernel (hboot : fw.Bootable) (hb : Buffers fw L kernelStart Buffer e) :
    Ensures fw.answer (open_kernel L efi_info kernelStart Buffer) e mem
      (BootOutcome.InPlace fw L) := by
  refine ensures_call (I := fun e _ => Buffers fw L kernelStart Buffer e) (hb.next _ _)
    fun _ e mem hb => .ite (fun _ => .pure trivial) fun _ => ?_
  refine ensures_require (I := fun e _ => Buffers fw L kernelStart Buffer e)
    (fun _ => hb.next _ _) fun _ e mem hb => ?_
  refine ensures_require (I := fun e _ => Buffers fw L kernelStart Buffer e)
    (fun _ => hb.next _ _) fun _ e mem hb => ?_
  refine ensures_call (I := fun e _ => Buffers fw L kernelStart Buffer e) (hb.next _ _)
    fun _ e mem hb => ?_
  refine ensures_require (I := fun e _ => Buffers fw L kernelStart Buffer e)
    (fun _ => hb.next _ _) fun _ e mem hb => ?_
  refine ensures_require (fun hstatus => ⟨hb.next _ _, fw.file_info _ _ _ _ hstatus⟩)
    fun _ e mem (h : FileKnown fw L kernelStart Buffer e mem) => ?_
  refine ensures_call (h.next rfl) fun _ e mem h => .bind (.load ?_)
  refine .ite (fun _ => ensures_give_up _) fun hsize => ?_
  rw [h.FileSize] at hsize
  exact ensures_read_kernel hboot h.toBuffers (Nat.not_lt.mp hsize)

/-- The first allocation: a stack that is not used, and the area for the kernel. -/
structure Allocated (fw : Firmware σ) (L : Loader) (PhysicalBuffer : Nat) (e : σ) : Prop
    extends L.Fits fw e where
  block : Set.Ico PhysicalBuffer (PhysicalBuffer + AllocSize) ⊆ fw.owned e
  block_tables : Disjoint (Set.Ico PhysicalBuffer (PhysicalBuffer + AllocSize))
    (boot_table_bytes L.t)
  block_aligned : PhysicalBuffer % 4096 = 0
  block_le : PhysicalBuffer + AllocSize ≤ 2 ^ 48

theorem Loader.Fits.allocated (h : L.Fits fw e)
    (hstatus : (fw.answer (.AllocatePages (AllocSize / 4096)) e mem).1.status = EFI_SUCCESS) :
    Allocated fw L (fw.answer (.AllocatePages (AllocSize / 4096)) e mem).1.value
      (fw.answer (.AllocatePages (AllocSize / 4096)) e mem).2.2 := by
  have hpages : 4096 * (AllocSize / 4096) = AllocSize := by decide
  obtain ⟨haligned, hle, hfresh, howned⟩ := fw.allocates _ _ _ hstatus
  rw [hpages] at hle hfresh howned
  exact ⟨h.next _ _, howned, hfresh.mono_right h.tables, haligned, hle⟩

theorem Allocated.next {PhysicalBuffer : Nat} (h : Allocated fw L PhysicalBuffer e) (c : EfiCall)
    (m : Bytes) : Allocated fw L PhysicalBuffer (fw.answer c e m).2.2 :=
  ⟨h.toFits.next c m, h.block.trans (fw.owned_mono c e m), h.block_tables, h.block_aligned,
    h.block_le⟩

/-- The second allocation, apart from the first. -/
theorem Allocated.buffers {PhysicalBuffer : Nat} (h : Allocated fw L PhysicalBuffer e)
    (hstatus : (fw.answer (.AllocatePages (KernelFileMaxSize / 4096)) e mem).1.status =
      EFI_SUCCESS) :
    Buffers fw L (PhysicalBuffer + stackSize)
      (fw.answer (.AllocatePages (KernelFileMaxSize / 4096)) e mem).1.value
      (fw.answer (.AllocatePages (KernelFileMaxSize / 4096)) e mem).2.2 := by
  have hpages : 4096 * (KernelFileMaxSize / 4096) = KernelFileMaxSize := by decide
  have hsizes : stackSize + KernelMaxSize = AllocSize := by decide
  have hstack : stackSize % 4096 = 0 := by decide
  have halloc := h.next (.AllocatePages (KernelFileMaxSize / 4096)) mem
  have harea : kernel_area (PhysicalBuffer + stackSize) KernelMaxSize ⊆
      Set.Ico PhysicalBuffer (PhysicalBuffer + AllocSize) :=
    Set.Ico_subset_Ico (by omega) (by omega)
  have haligned := h.block_aligned
  have hle := h.block_le
  obtain ⟨-, hfile_le, hfresh, howned⟩ := fw.allocates _ _ _ hstatus
  rw [hpages] at hfile_le hfresh howned
  exact ⟨halloc.toFits, harea.trans halloc.block, howned,
    (hfresh.mono_right (harea.trans h.block)).symm, h.block_tables.mono_left harea, by omega,
    by omega, hfile_le⟩

theorem ensures_efi_main (hboot : fw.Bootable) (h : L.Fits fw e) :
    Ensures fw.answer (efi_main L) e mem (BootOutcome.InPlace fw L) := by
  refine ensures_call (I := fun e _ => L.Fits fw e) (h.next _ _) fun p e mem h =>
    .ite (fun _ => ensures_give_up _) fun _ => ?_
  refine ensures_call (I := fun e _ => L.Fits fw e) (h.next _ _) fun _ e mem h => ?_
  refine ensures_require_answer (A := fun a e _ => Allocated fw L a.value e) h.allocated
    fun a e mem h => ?_
  refine ensures_call (I := fun e _ => Allocated fw L a.value e) (h.next _ _) fun _ e mem h => ?_
  refine ensures_require_answer
    (A := fun b e _ => Buffers fw L (a.value + stackSize) b.value e) h.buffers
    fun b e mem hb => .bind ?_
  refine .bind (.call (.bind (.call (.ite (fun _ => .pure ?_) fun _ => .pure ?_))))
  · exact ensures_open_kernel hboot ((hb.next _ _).next _ _)
  · exact ensures_open_kernel hboot ((hb.next _ _).next _ _)

end firmware

/-- **The kernel is entered as it was linked.** For every firmware that leaves the memory of the
    boot loader alone and has the file of a kernel: if `efi_main` gets to the jump, it jumps to the
    entry point of the file, with tables through which all bytes of the file are found at the
    addresses their segments are linked at. The first GiB of the kernel window is the image and the
    identity map, and no address of the lower half was moved by the switch of the tables. -/
theorem kernel_entered {σ : Type} (fw : Firmware σ) (L : Loader) (e : σ) (mem : Bytes)
    (hboot : fw.Bootable) (hL : L.Fits fw e) (entrypoint : Nat) (efi_info : BootInfo) (cr3 : Nat)
    (h : ((efi_main L).run fw.answer e mem).result = .entered entrypoint efi_info cr3) :
    cr3 = L.t ∧
      KernelEntered fw L entrypoint efi_info ((efi_main L).run fw.answer e mem).store := by
  have hplace : Ensures fw.answer (efi_main L) e mem (BootOutcome.InPlace fw L) :=
    ensures_efi_main hboot hL
  replace hplace := hplace.outcome
  rw [h] at hplace
  exact hplace

/-! A firmware with a small kernel. It has two blocks of pages to give away. -/

section example_firmware

/-- The blocks, in the order in which they are allocated. -/
def example_blocks : List (Nat × Nat) := [(0x1000000, AllocSize), (0x8000000, KernelFileMaxSize)]

def example_tables : Nat := 0x10000000

/-- An answer without a memory map. -/
def plain_answer (status value : Nat) : EfiAnswer := ⟨status, value, 0, 48, 1, fun _ => 0⟩

/-- The state is the number of blocks that were allocated. -/
def example_answer (file : List UInt8) : Environment EfiCall EfiAnswer Bytes Nat
  | .AllocatePages n, e, m =>
    match example_blocks[e]? with
    | some (a, size) =>
      if size = 4096 * n then (plain_answer EFI_SUCCESS a, m, e + 1) else (plain_answer 9 0, m, e)
    | none => (plain_answer 9 0, m, e)
  | .GetMemoryMap, e, m => (plain_answer EFI_SUCCESS 5, m, e)
  | .GetInfo .EFI_FILE_INFO Buffer BufferSize, e, m =>
    if 16 ≤ BufferSize then
      (plain_answer EFI_SUCCESS 0,
        overwrite m (Buffer + 8) 8 (file_bytes (le_bytes file.length 8)), e)
    else (plain_answer 5 0, m, e)
  | .Read Buffer BufferSize, e, m =>
    (plain_answer EFI_SUCCESS (min BufferSize file.length),
      overwrite m Buffer (min BufferSize file.length) (file_bytes file), e)
  | _, e, m => (plain_answer EFI_SUCCESS 0, m, e)

def example_owned (e : Nat) : Set Nat :=
  boot_table_bytes example_tables ∪
    {a | ∃ block ∈ example_blocks.take e, a ∈ Set.Ico block.1 (block.1 + block.2)}

theorem example_owned_mono {e e' : Nat} (h : e ≤ e') : example_owned e ⊆ example_owned e' := by
  refine Set.union_subset_union_right _ ?_
  rintro a ⟨block, hblock, ha⟩
  exact ⟨block, (List.take_prefix_take_left h).subset hblock, ha⟩

theorem example_state_le (file : List UInt8) (c : EfiCall) (e : Nat) (m : Bytes) :
    e ≤ (example_answer file c e m).2.2 := by
  unfold example_answer
  repeat' split
  all_goals first | exact Nat.le_refl e | exact Nat.le_succ e

theorem example_frame (file : List UInt8) (c : EfiCall) (e : Nat) (m : Bytes) :
    ChangesOnly ((example_owned e)ᶜ ∪ c.buffer) m (example_answer file c e m).2.1 := by
  unfold example_answer
  repeat' split
  all_goals first | exact .refl _ _ | skip
  · exact .overwrite _ (Set.subset_union_of_subset_right
      (Set.Ico_subset_Ico (by omega) (by omega)) _)
  · exact .overwrite _ (Set.subset_union_of_subset_right
      (Set.Ico_subset_Ico (Nat.le_refl _) (by omega)) _)

/-- An allocation is that of the next block. -/
theorem example_allocation {file : List UInt8} {n e : Nat} {m : Bytes}
    (h : (example_answer file (.AllocatePages n) e m).1.status = EFI_SUCCESS) :
    ∃ a, example_blocks[e]? = some (a, 4096 * n) ∧
      example_answer file (.AllocatePages n) e m = (plain_answer EFI_SUCCESS a, m, e + 1) := by
  simp only [example_answer] at h ⊢
  cases hblock : example_blocks[e]? with
  | none =>
    rw [hblock] at h
    cases h
  | some block =>
    obtain ⟨a, size⟩ := block
    simp only [hblock] at h ⊢
    by_cases hsize : size = 4096 * n
    · exact ⟨a, by rw [hsize], if_pos hsize⟩
    · rw [if_neg hsize] at h
      cases h

theorem example_block_facts {e a size : Nat} (h : example_blocks[e]? = some (a, size)) :
    a % 4096 = 0 ∧ a + size ≤ 2 ^ 48 ∧ Disjoint (Set.Ico a (a + size)) (example_owned e) ∧
      Set.Ico a (a + size) ⊆ example_owned (e + 1) := by
  have halloc : AllocSize = 0x4100000 := rfl
  have htables : example_tables = 0x10000000 := rfl
  have hfile : KernelFileMaxSize = 0x800000 := rfl
  rcases e with _ | _ | e
  · cases h
    refine ⟨by decide, by decide, Set.disjoint_left.mpr ?_, fun x hx => ?_⟩
    · rintro x ⟨hlow, hhigh⟩ (⟨htlow, -⟩ | ⟨block, hblock, -⟩)
      · omega
      · cases hblock
    · exact Or.inr ⟨_, List.mem_cons_self, hx⟩
  · cases h
    refine ⟨by decide, by decide, Set.disjoint_left.mpr ?_, fun x hx => ?_⟩
    · rintro x ⟨hlow, hhigh⟩ (⟨htlow, -⟩ | ⟨block, hblock, -, hbehind⟩)
      · omega
      · cases List.mem_singleton.mp hblock
        dsimp only at hbehind
        omega
    · exact Or.inr ⟨_, List.mem_cons_of_mem _ List.mem_cons_self, hx⟩
  · cases h

theorem example_allocates (file : List UInt8) (n e : Nat) (m : Bytes)
    (h : (example_answer file (.AllocatePages n) e m).1.status = EFI_SUCCESS) :
    let a := (example_answer file (.AllocatePages n) e m).1.value
    a % 4096 = 0 ∧ a + 4096 * n ≤ 2 ^ 48 ∧
      Disjoint (Set.Ico a (a + 4096 * n)) (example_owned e) ∧
      Set.Ico a (a + 4096 * n) ⊆
        example_owned (example_answer file (.AllocatePages n) e m).2.2 := by
  obtain ⟨a, hblock, hanswer⟩ := example_allocation h
  rw [hanswer]
  exact example_block_facts hblock

/-- A kernel whose segment of two bytes goes on behind the file. -/
def example_kernel : List UInt8 := one_segment_file KERNEL_START first_segment [0xaa]

/-- The firmware with this file. -/
def example_firmware : Firmware Nat where
  answer := example_answer example_kernel
  owned := example_owned
  kernel := file_bytes example_kernel
  kernel_size := 121
  owned_mono c e m := example_owned_mono (example_state_le _ c e m)
  frame := example_frame _
  allocates := example_allocates _
  file_info b n e m h := by
    simp only [example_answer] at h ⊢
    by_cases hn : 16 ≤ n
    · rw [if_pos hn]
      have hbytes : ∀ i < 8, overwrite m (b + 8) 8 (file_bytes (le_bytes 121 8)) (b + 8 + i) =
          file_bytes (le_bytes 121 8) (0 + i) := by
        intro i hi
        rw [overwrite_of_mem ⟨by omega, by omega⟩, Nat.add_sub_cancel_left, Nat.zero_add]
      exact (load_le_congr hbytes).trans (by decide +kernel)
    · rw [if_neg hn] at h
      cases h
  reads b n e m _ := by
    have hlength : example_kernel.length = 121 := rfl
    refine ⟨rfl, fun o ho => ?_⟩
    exact (overwrite_of_mem ⟨by omega, by omega⟩).trans (by rw [Nat.add_sub_cancel_left])

/-- The memory of the firmware has the table of ACPI in it. -/
def example_memory : Bytes := copy (fun _ => 0) 0xe0000 rsdp_magic

def example_loader : Loader := ⟨example_tables, 0x2000, [(ACPI20_GUID, 0xe0000)]⟩

/-- The entry point, if the kernel is entered. -/
def BootOutcome.entrypoint? : BootOutcome → Option Nat
  | .entered entrypoint _ _ => some entrypoint
  | _ => none

theorem example_segments : segments example_firmware.kernel = [first_segment] := by
  decide +kernel

theorem bootable_example : example_firmware.Bootable := by
  refine ⟨⟨by decide +kernel, by decide, by decide +kernel, by decide +kernel, by decide +kernel,
    ?_, ?_⟩, ?_, ?_⟩
  all_goals rw [example_segments]
  · decide
  · decide
  · exact List.pairwise_singleton _ _
  · decide

theorem example_kernel_entered : ∃ efi_info,
    ((efi_main example_loader).run example_firmware.answer 0 example_memory).result =
      .entered KERNEL_START efi_info example_tables ∧
    ∃ a, window_translate ((efi_main example_loader).run example_firmware.answer 0
        example_memory).store example_tables 0 = some a ∧
      ((efi_main example_loader).run example_firmware.answer 0 example_memory).store a = 0xaa := by
  have hfits : example_loader.Fits example_firmware 0 :=
    ⟨Set.subset_union_left, by decide, by decide⟩
  have hentered : ((efi_main example_loader).run example_firmware.answer 0
      example_memory).result.entrypoint? = some KERNEL_START := by decide +kernel
  cases hresult : ((efi_main example_loader).run example_firmware.answer 0
      example_memory).result with
  | returned status =>
    rw [hresult] at hentered
    cases hentered
  | crashed =>
    rw [hresult] at hentered
    cases hentered
  | entered entrypoint efi_info cr3 =>
    rw [hresult] at hentered
    obtain ⟨hcr3, hkernel⟩ := kernel_entered example_firmware example_loader 0 example_memory
      bootable_example hfits _ _ _ hresult
    have hmem : first_segment ∈ segments example_firmware.kernel := by
      rw [example_segments]
      exact List.mem_cons_self
    obtain ⟨a, htranslate, hbyte⟩ := hkernel.segments first_segment hmem 0 (by decide)
    refine ⟨efi_info, ?_, a, htranslate, (hbyte (by decide)).trans (by decide +kernel)⟩
    rw [Option.some.inj hentered, hcr3]
    rfl

end example_firmware

end Modern05
