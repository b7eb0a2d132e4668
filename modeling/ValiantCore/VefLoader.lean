import ValiantCore.SecurityEngine
import ValiantCore.VefPack

/-! The executable loader `loaders/vef-loader.c`, over a flat memory: the checks of
`vef_exec`, its copy loop, and what it makes of the files the packer writes. The two
programs declare the header with different widths, so every packed file is refused. -/
namespace ValiantCore
namespace VefLoader

open Bytes

/-- The build targets of `vef_current_arch`. -/
inductive Build
  | i386 | x86_64 | aarch64
  deriving DecidableEq, Repr

def Build.currentArch : Build → ℕ
  | .i386 => 1
  | .x86_64 => 2
  | .aarch64 => 3

def Build.addrBits : Build → ℕ
  | .i386 => 32
  | .x86_64 => 64
  | .aarch64 => 64

/-- The packed `vef_header_t` of the loader: 4, 1, 4 and 4 bytes. -/
structure VefHeader where
  magic : List UInt8
  arch : ℕ
  entryPoint : ℕ
  textSize : ℕ
  deriving DecidableEq

def headerSize : ℕ := 13

/-- `hdr->text_size`, wherever `hdr` points. -/
def textSizeAt (byte : ℕ → UInt8) (hdr : ℕ) : ℕ := field byte (hdr+9) 4

def readHeader (byte : ℕ → UInt8) (hdr : ℕ) : VefHeader :=
  ⟨bytesAt byte hdr 4,field byte (hdr+4) 1,field byte (hdr+5) 4,textSizeAt byte hdr⟩

/-- How `vef_exec` ends: it returns `-1` after printing, in a window of its own or on
the console, or it jumps to ring 3 with the memory as loaded. -/
inductive Outcome
  | refused (window : Option String) (text : List String)
  | running (byte : ℕ → UInt8) (entry textSize : ℕ)

def archText (arch : ℕ) : List String :=
  if arch = 1 then ["File is for i386, current system is different.\n"]
  else if arch = 2 then ["File is for x86_64, current system is different.\n"]
  else if arch = 3 then ["File is for Aarch64, current system is different.\n"]
  else []

/-- The copy loop from turn `i` on. Its bound is read again from the header every turn. -/
def copyPayload (addrBits hdr loadAddr : ℕ) (byte : ℕ → UInt8) (i : ℕ) : ℕ → UInt8 :=
  if i < textSizeAt byte hdr then
    copyPayload addrBits hdr loadAddr
      (Function.update byte ((loadAddr+i)%2^addrBits) (byte (hdr+headerSize+i))) (i+1)
  else byte
termination_by 256^4-i
decreasing_by
  have hlt := field_lt byte (hdr+9) 4
  have hi : i < field byte (hdr+9) 4 := by assumption
  omega

def scanFailed : Outcome :=
  .refused (some "VEF Loader - Security")
    ["ERROR: Security scan failed.\n","Execution blocked by ValiantCore's Cyber Armor.\n"]

def vefExec (build : Build) (byte : ℕ → UInt8) (buf size : ℕ) : Outcome :=
  if buf = 0 ∨ size < headerSize then .refused none ["ERROR: Invalid VEF buffer\n"]
  else
    let hdr := readHeader byte buf
    if hdr.magic ≠ VefPack.magic then
      .refused (some "VEF Loader - Error")
        ["ERROR: No valid signature was found in this file.\n","Expected: FINN signature\n",
          "This file cannot be executed.\n"]
    else if hdr.arch ≠ build.currentArch then
      .refused (some "VEF Loader - Error") ("ERROR: Architecture mismatch.\n"::archText hdr.arch)
    else if hdr.textSize+headerSize > size then
      .refused (some "VEF Loader - Error") ["ERROR: Corrupted VEF file (size mismatch).\n"]
    else if Security.securityScanBuffer byte (buf+headerSize) hdr.textSize ≠ 0 then scanFailed
    else
      let loaded := copyPayload build.addrBits buf hdr.entryPoint byte 0
      .running loaded (field loaded (buf+5) 4) (textSizeAt loaded buf)

/-- The image at `buf` gives back what was packed: the magic, the architecture, the
entry point, the size, and the payload where the loader looks for it. -/
structure RoundTrip (byte : ℕ → UInt8) (buf arch : ℕ) (payload : List UInt8) : Prop where
  magic : (readHeader byte buf).magic = VefPack.magic
  arch : (readHeader byte buf).arch = arch
  entryPoint : (readHeader byte buf).entryPoint = 0x100000
  textSize : (readHeader byte buf).textSize = payload.length
  payload : bytesAt byte (buf+headerSize) payload.length = payload

/-- What the loader reads of a packed image. Its `text_size` is the upper half of the
packer's `entry_point`, and where it looks for the payload lies the packer's `text_size`. -/
theorem readHeader_packed {byte : ℕ → UInt8} {buf arch : ℕ} {payload : List UInt8} (harch : arch < 256)
    (h : Holds byte buf ((VefPack.header arch payload.length).bytes++payload)) :
    readHeader byte buf = ⟨VefPack.magic,arch,0x100000,0⟩ ∧
      Holds byte (buf+headerSize) (leBytes 8 payload.length++payload) := by
  have hsplit : leBytes 8 VefPack.defaultEntry =
      leBytes 4 VefPack.defaultEntry++leBytes 4 (VefPack.defaultEntry/256^4) := leBytes_add 4 4 _
  simp only [VefPack.VefHeader.bytes,VefPack.header,hsplit,List.append_assoc] at h
  obtain ⟨hmagic,h⟩ := holds_append.mp h
  obtain ⟨ha,h⟩ := holds_append.mp h
  obtain ⟨hentry,h⟩ := holds_append.mp h
  obtain ⟨hupper,h⟩ := holds_append.mp h
  simp only [leBytes_length,VefPack.magic,List.length_cons,List.length_nil,Nat.add_assoc] at ha hentry hupper h
  have hmagic' : bytesAt byte buf 4 = VefPack.magic := hmagic.bytes rfl
  have ha' : field byte (buf+4) 1 = arch := by rw [ha.field,pow_one,Nat.mod_eq_of_lt harch]
  have hentry' : field byte (buf+5) 4 = 0x100000 := hentry.field
  have hupper' : field byte (buf+9) 4 = 0 := hupper.field
  exact ⟨by rw [readHeader,textSizeAt,hmagic',ha',hentry',hupper'],h⟩

section Packed
variable {host : VefPack.Host} {prog targetArch inputBin outputVef : String} {rest : List String}
  {arch : ℕ} {payload image : List UInt8} {byte : ℕ → UInt8} {buf : ℕ}

theorem image_of_run (harch : VefPack.archId targetArch = some arch)
    (hinput : host.readable inputBin = some payload)
    (hok : (VefPack.main host (prog::targetArch::inputBin::outputVef::rest)).status = 0)
    (himage : (VefPack.main host (prog::targetArch::inputBin::outputVef::rest)).vefFile = some image) :
    image = (VefPack.header arch payload.length).bytes++payload := by
  obtain ⟨_,_,_,_,_,arch',contents,hargv,harch',hinput',hfile⟩ := VefPack.main_success hok
  simp only [List.cons.injEq] at hargv
  obtain ⟨-,rfl,rfl,-,-⟩ := hargv
  obtain rfl : arch = arch' := Option.some.inj (harch.symm.trans harch')
  obtain rfl : payload = contents := Option.some.inj (hinput.symm.trans hinput')
  exact Option.some.inj (himage.symm.trans hfile)

/-- On the machine it was packed for, the file is refused by the security scan, which
is handed no bytes. -/
theorem packed_refused (build : Build) (hbuf : buf ≠ 0)
    (harch : VefPack.archId targetArch = some build.currentArch)
    (hinput : host.readable inputBin = some payload)
    (hok : (VefPack.main host (prog::targetArch::inputBin::outputVef::rest)).status = 0)
    (himage : (VefPack.main host (prog::targetArch::inputBin::outputVef::rest)).vefFile = some image)
    (h : Holds byte buf image) : vefExec build byte buf image.length = scanFailed := by
  have heq := image_of_run harch hinput hok himage
  have hread := (readHeader_packed (VefPack.archId_lt harch) (heq ▸ h)).1
  have hlen : image.length = 21+payload.length := by
    simp only [heq,VefPack.VefHeader.bytes,VefPack.header,VefPack.magic,List.length_append,
      leBytes_length,List.length_cons,List.length_nil]
  have hsmall : ¬ image.length < headerSize := by rw [hlen,headerSize]; omega
  simp [vefExec,hread,hbuf,hsmall,Security.securityScanBuffer_empty]

/-- Whatever the packer makes of a non-empty payload, the loader does not read it back. -/
theorem packed_never_round_trips (hne : payload ≠ []) (harch : VefPack.archId targetArch = some arch)
    (hinput : host.readable inputBin = some payload)
    (hok : (VefPack.main host (prog::targetArch::inputBin::outputVef::rest)).status = 0)
    (himage : (VefPack.main host (prog::targetArch::inputBin::outputVef::rest)).vefFile = some image)
    (h : Holds byte buf image) : ¬ RoundTrip byte buf arch payload := by
  intro hround
  have hread := (readHeader_packed (VefPack.archId_lt harch) (image_of_run harch hinput hok himage ▸ h)).1
  have hsize := hround.textSize
  rw [hread] at hsize
  exact hne (List.length_eq_zero_iff.mp hsize.symm)

end Packed

/-- A host on which every input file holds `payload` and nothing fails. -/
def hostWith (payload : List UInt8) : VefPack.Host :=
  ⟨fun _ => some payload,fun _ => true,fun _ => true⟩

/-- What `vef-pack` writes for `payload`. -/
def packedImage (arch : ℕ) (payload : List UInt8) : List UInt8 :=
  (VefPack.header arch payload.length).bytes++payload

theorem two_bytes_never_round_trip :
    ¬ RoundTrip (fun i => (packedImage 1 [0x90,0xC3]).getD i 0) 0 1 [0x90,0xC3] := by
  refine @packed_never_round_trips (hostWith [0x90,0xC3]) "vef-pack" "i386" "a.bin" "a.vef" [] 1
    [0x90,0xC3] (packedImage 1 [0x90,0xC3]) _ 0 (by decide) ?_ rfl ?_ ?_ (holds_getD _)
  · simp [VefPack.archId,VefPack.archI386]
  · simp [VefPack.main,VefPack.archId,hostWith]
  · simp [VefPack.main,VefPack.archId,hostWith,packedImage,VefPack.archI386]

/-- A one-byte payload for x86_64 is read back with a size of zero. -/
theorem one_byte_size_lost :
    ¬ RoundTrip (fun i => (packedImage 2 [0xC3]).getD i 0) 0 2 [0xC3] := by
  intro h
  exact absurd h.textSize (by decide)

end VefLoader
end ValiantCore
