import Uatu.Types

/-!
# The ASLR slide

`elf_min_vaddr` and `get_load_base` of `src/engine/attach_engine.cpp`, and the slide
`get_aslr_slide` computes from them: the difference between the runtime and the link-time address
of the mapping of the file that starts at offset `0`.
-/

namespace Uatu

/-- The fields of an `Elf64_Phdr` that matter for loading. -/
structure Phdr where
  pType : BitVec 32
  pFlags : BitVec 32
  pOffset : Word
  pVaddr : Addr
  pFilesz : Word
  pMemsz : Word
  deriving DecidableEq

def PT_LOAD : BitVec 32 := 1

/-- An ELF file, as `elf_min_vaddr` reads it. -/
structure ElfFile where
  /-- It opens, and starts with an ELF header. -/
  readable : Bool
  /-- The program headers, up to the first that cannot be read. -/
  phdrs : List Phdr

/-- `elf_min_vaddr`. -/
def elfMinVaddr (file : ElfFile) : Addr :=
  if file.readable then
    match file.phdrs.find? fun phdr => phdr.pType = PT_LOAD ∧ phdr.pOffset = 0 with
    | some phdr => phdr.pVaddr
    | none => 0
  else 0

/-- A line of `/proc/<pid>/maps`, as `sscanf` splits it. No column before the path holds a `/`, so
an absolute path occurs in the line when it occurs in its path. -/
structure MapsLine where
  start : Addr
  stop : Addr
  offset : Word
  path : Text
  deriving DecidableEq

/-- `get_load_base`, over the lines of `/proc/<pid>/maps`. -/
def getLoadBase (maps : List MapsLine) (exePath : Text) : Addr :=
  match maps.find? fun line => exePath <:+: line.path ∧ line.offset = 0 with
  | some line => line.start
  | none => 0

end Uatu
