import PsxRecomp.R3000.Machine

/-! The address model of a BIOS profile: the ranges that are copied from ROM to RAM at boot, the
dispatch keys, and the ROM addresses that a jump from copied code leads to. -/
namespace PsxRecomp.Discovery
open R3000
set_option autoImplicit false

/-- `BiosAddrCopy` -/
structure AddrCopy where
  romLo : Word
  romHi : Word
  ramLo : Word
  runtimeBase : Word
  keyIsRam : Bool

/-- Exclusive. -/
def AddrCopy.ramHi (c : AddrCopy) : Word := c.ramLo + (c.romHi - c.romLo)

structure BiosAddressModel where
  copies : List AddrCopy
  romBasePhys : Word
  romSize : Word

namespace BiosAddressModel

/-- One fold of `normalize`. -/
def foldKey (phys : Word) (c : AddrCopy) : Word :=
  if c.keyIsRam then
    if c.romLo ≤ phys ∧ phys < c.romHi then phys - c.romLo + c.ramLo else phys
  else if c.ramLo ≤ phys ∧ phys < c.ramHi then phys - c.ramLo + c.romLo else phys

def normalize (m : BiosAddressModel) (addr : Word) : Word :=
  let phys := addr &&& 0x1FFFFFFF
  m.copies.foldl foldKey (if phys < 0x00800000 then phys &&& 0x001FFFFF else phys)

/-- The copy whose RAM window holds a physical address. -/
def ramCopy (m : BiosAddressModel) (phys : Word) : Option AddrCopy :=
  m.copies.find? fun c => c.ramLo ≤ phys ∧ phys < c.ramHi

def ramAliasToRom (m : BiosAddressModel) (addr : Word) : Word :=
  match m.ramCopy (addr &&& 0x1FFFFFFF) with
  | some c => (0xA0000000 ||| c.romLo) + ((addr &&& 0x1FFFFFFF) - c.ramLo)
  | none => addr

def remapRelocatedJTarget (m : BiosAddressModel) (target sourceRomAddr : Word) : Word :=
  let srcPhys := sourceRomAddr &&& 0x1FFFFFFF
  match m.copies.find? fun c => c.romLo ≤ srcPhys ∧ srcPhys < c.romHi with
  | none => target
  | some c =>
    -- the target inherits the region the source runs in
    let runtimeAddr := c.runtimeBase + (srcPhys - c.romLo)
    let ramPhys := ((runtimeAddr &&& 0xF0000000) ||| (target &&& 0x0FFFFFFF)) &&& 0x1FFFFFFF
    match m.ramCopy ramPhys with
    | some c' => (0xA0000000 ||| c'.romLo) + (ramPhys - c'.ramLo)
    | none =>
      if m.romBasePhys ≤ ramPhys ∧ ramPhys < m.romBasePhys + m.romSize then 0xA0000000 ||| ramPhys
      else target

end BiosAddressModel

end PsxRecomp.Discovery
