import ValiantCore.Bytes

/-! The host tool `bin/vef-pack.c`: it puts a header before a flat binary. Its input and
output paths name different files. -/
namespace ValiantCore
namespace VefPack

open Bytes

def magic : List UInt8 := [0x46,0x49,0x4E,0x4E]

def archI386 : ℕ := 1
def archX86_64 : ℕ := 2
def archAarch64 : ℕ := 3

/-- The packed `vef_header_t` of the packer: 4, 1, 8 and 8 bytes. -/
structure VefHeader where
  magic : List UInt8
  arch : ℕ
  entryPoint : ℕ
  textSize : ℕ

def VefHeader.bytes (h : VefHeader) : List UInt8 :=
  h.magic++leBytes 1 h.arch++leBytes 8 h.entryPoint++leBytes 8 h.textSize

/-- What the tool finds on its host. -/
structure Host where
  readable : String → Option (List UInt8)
  writable : String → Bool
  malloc : ℕ → Bool

/-- What a run leaves behind: the exit status, the printed lines and the output file. -/
structure Result where
  status : ℕ
  stdout : List String
  vefFile : Option (List UInt8)

def usage : List String :=
  ["====================================================\n",
    "     VALIANTCORE UNIVERSAL VEF PACKER (v2.0)        \n",
    "====================================================\n",
    "Usage: ./vef-pack <architecture> <input.bin> <output.vef>\n\n",
    "Architectures:\n",
    "  i386    : 32-bit Intel/AMD\n",
    "  x86_64  : 64-bit Intel/AMD\n",
    "  aarch64 : 64-bit ARM (Termux native)\n"]

/-- The architectures the packer accepts. -/
def archId (targetArch : String) : Option ℕ :=
  if targetArch = "i386" then some archI386
  else if targetArch = "x86_64" then some archX86_64
  else if targetArch = "aarch64" then some archAarch64
  else none

def defaultEntry : ℕ := 0x100000

def header (arch binSize : ℕ) : VefHeader := ⟨magic,arch,defaultEntry,binSize⟩

def main (host : Host) : List String → Result
  | _::targetArch::inputBin::outputVef::_ =>
    match archId targetArch with
    | none =>
      ⟨1,["Error: Invalid architecture '"++targetArch++"'! (Options: i386, x86_64, aarch64)\n"],none⟩
    | some arch =>
      match host.readable inputBin with
      | none => ⟨1,["Error: Input file ("++inputBin++") could not be opened!\n"],none⟩
      | some contents =>
        let binSize := contents.length
        if host.writable outputVef = false then
          ⟨1,["Error: Output file ("++outputVef++") could not be created!\n"],none⟩
        else if host.malloc binSize = false then
          ⟨1,["Error: Memory allocation failed!\n"],some (header arch binSize).bytes⟩
        else
          ⟨0,["[VEF-PACK] Success! Universal executable generated -> "++outputVef++"\n",
            "-> Target Arch   : "++targetArch++" (ID: "++toString arch++")\n",
            "-> Entry Point   : 0x"++String.ofList (Nat.toDigits 16 defaultEntry)++"\n",
            "-> Code Payload  : "++toString binSize++" bytes\n"],
            some ((header arch binSize).bytes++contents)⟩
  | _ => ⟨1,usage,none⟩

theorem main_success {host : Host} {argv : List String} (h : (main host argv).status = 0) :
    ∃ prog targetArch inputBin outputVef rest arch contents,
      argv = prog::targetArch::inputBin::outputVef::rest ∧ archId targetArch = some arch ∧
      host.readable inputBin = some contents ∧
      (main host argv).vefFile = some ((header arch contents.length).bytes++contents) := by
  match argv with
  | [] | [_] | [_,_] | [_,_,_] => simp [main] at h
  | prog::targetArch::inputBin::outputVef::rest =>
    cases harch : archId targetArch with
    | none => simp [main,harch] at h
    | some arch =>
      cases hread : host.readable inputBin with
      | none => simp [main,harch,hread] at h
      | some contents =>
        simp only [main,harch,hread] at h ⊢
        -- the two failing exits have status 1
        split_ifs at h ⊢
        exact ⟨prog,targetArch,inputBin,outputVef,rest,arch,contents,rfl,harch,hread,rfl⟩

theorem archId_lt {targetArch : String} {arch : ℕ} (h : archId targetArch = some arch) : arch < 256 := by
  unfold archId at h
  split_ifs at h <;> obtain rfl := Option.some.inj h <;> decide

end VefPack
end ValiantCore
