import LaneKernel.Compiler.Contract

/-!
# Moving partial vectors

The bytes that do not fill a vector are moved in chunks of eight, four, two and
one.  A load goes through sixteen bytes of the frame; a store shifts the vector
down after every chunk, so that the next one is always in the low lanes.
-/

namespace LaneKernel.Staging

open Asm Contract

/-- The number of labels that a move uses. -/
def labelCount : Nat := 4

/-- Copies `chunk` bytes to the staging area if that many remain. -/
def loadChunk (aligned : Bool) (chunk : Int) (offsets : List Int)
    (skip : Label) : Fragment :=
  let loadWord (offset : Int) : Fragment :=
    if aligned then lw scratch memoryWalk offset
    else loadUnaligned scratch memoryWalk offset
  sltiu scratch remaining chunk ++ bnez scratch skip
    ++ offsets.flatMap (fun offset => loadWord offset
    ++ sw scratch stagingWalk offset)
    ++ addiu memoryWalk memoryWalk chunk ++ addiu stagingWalk stagingWalk chunk
    ++ addiu remaining remaining (-chunk) ++ mark skip

/-- Fills `wd` from the tail bytes at `pointer + offset`.  Lanes past the tail
hold what was in the staging area before. -/
def load (wd pointer : Reg) (offset : Int) (aligned : Bool) (first : Label) :
    Fragment :=
  move remaining tailBytes
    ++ (if offset = 0 then move memoryWalk pointer
        else addiu memoryWalk pointer offset)
    ++ addiu stagingWalk .sp Frame.staging
    ++ loadChunk aligned 8 [0, 4] first
    ++ loadChunk aligned 4 [0] (first + 1)
    ++ sltiu scratch remaining 2 ++ bnez scratch (first + 2)
    ++ lbu scratch memoryWalk 0 ++ sb scratch stagingWalk 0
    ++ lbu scratch memoryWalk 1 ++ sb scratch stagingWalk 1
    ++ addiu memoryWalk memoryWalk 2 ++ addiu stagingWalk stagingWalk 2
    ++ addiu remaining remaining (-2) ++ mark (first + 2)
    ++ beqz remaining (first + 3)
    ++ lbu scratch memoryWalk 0 ++ sb scratch stagingWalk 0 ++ mark (first + 3)
    ++ insn (.ld .byte wd .sp Frame.staging)

/-- Writes the tail bytes of `ws` to `pointer`. -/
def store (ws pointer : Reg) (aligned : Bool) (first : Label) : Fragment :=
  let storeWord (offset : Int) : Fragment :=
    if aligned then sw scratch memoryWalk offset
    else storeUnaligned scratch memoryWalk offset
  insn (.moveV vectorScratch ws) ++ move remaining tailBytes
    ++ move memoryWalk pointer
    ++ sltiu scratch remaining 8 ++ bnez scratch first
    ++ insn (.copyS .word scratch vectorScratch 0) ++ storeWord 0
    ++ insn (.copyS .word scratch vectorScratch 1) ++ storeWord 4
    ++ insn (.shf .word vectorScratch vectorScratch 0x4e)
    ++ addiu memoryWalk memoryWalk 8 ++ addiu remaining remaining (-8)
    ++ mark first
    ++ sltiu scratch remaining 4 ++ bnez scratch (first + 1)
    ++ insn (.copyS .word scratch vectorScratch 0) ++ storeWord 0
    ++ insn (.shf .half vectorScratch vectorScratch 0x4e)
    ++ addiu memoryWalk memoryWalk 4 ++ addiu remaining remaining (-4)
    ++ mark (first + 1)
    ++ sltiu scratch remaining 2 ++ bnez scratch (first + 2)
    ++ insn (.copyU .half scratch vectorScratch 0) ++ sb scratch memoryWalk 0
    ++ srl scratch scratch 8 ++ sb scratch memoryWalk 1
    ++ insn (.shf .byte vectorScratch vectorScratch 0x4e)
    ++ addiu memoryWalk memoryWalk 2 ++ addiu remaining remaining (-2)
    ++ mark (first + 2)
    ++ beqz remaining (first + 3)
    ++ insn (.copyU .byte scratch vectorScratch 0) ++ sb scratch memoryWalk 0
    ++ mark (first + 3)

end LaneKernel.Staging
