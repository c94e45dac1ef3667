import Nx.Bytes

/-!
The thread-local storage of a new thread, `createThread` of kernel/source/scheduler/thread.cpp, with
what `loadELFBinary` of kernel/source/loader/elf.cpp keeps of a PT_TLS segment.
-/

namespace Nx.ThreadTls

open Bytes

def alignup (x y : Nat) : Nat := (x + (y - 1)) / y * y

structure Process where
  processId : Nat
  tlsMasterCopy : Nat
  tlsAlign : Nat
  tlsSize : Nat

/-- The segment is mapped at `virt`. -/
def Process.load (proc : Process) (virt vaddr align memsz : Nat) : Process :=
  { proc with tlsMasterCopy := virt + vaddr % 4096, tlsAlign := max align 1, tlsSize := memsz }

variable (proc : Process)

def tlsDataSz : Nat := if proc.tlsSize = 0 then 0 else alignup proc.tlsSize proc.tlsAlign

def tcbOffset : Nat := alignup proc.tlsSize (max proc.tlsAlign (max 8 8))

def numPages : Nat := (tcbOffset proc + 24 + 8 + 4095) / 4096

/-- The frames from `phys` on, which the thread has at `virt`; those of the master copy start at
`master`. The scratch mapping of the master copy has as many pages as the new block, and a read
behind them is none. -/
def createTls (memory : Memory) (threadId virt phys master : Nat) : Option Memory :=
  let tcb := tcbOffset proc
  let memory := fill memory (phys + tcb) 24 0
  let memory := store (store memory (phys + tcb) (virt + tcb)) (phys + tcb + 8) threadId
  let memory := fill memory (phys + tcb + 24) 8 0
  let memory := store (store memory (phys + tcb + 24) proc.processId) (phys + tcb + 16)
      (virt + tcb + 24)
  if proc.tlsSize = 0 then some memory
  else if 4096 * numPages proc < proc.tlsMasterCopy % 4096 + tlsDataSz proc then none
  else some (copy memory (phys + tcb - tlsDataSz proc) (master + proc.tlsMasterCopy % 4096)
    (tlsDataSz proc))

structure Correct (memory : Memory) (threadId virt phys master : Nat) : Prop where
  aligned : (virt + tcbOffset proc) % proc.tlsAlign = 0 ∧ (virt + tcbOffset proc) % 8 = 0
  image : ∃ after, createTls proc memory threadId virt phys master = some after ∧
    ∀ i < proc.tlsSize,
    after (phys + tcbOffset proc - alignup proc.tlsSize proc.tlsAlign + i) =
      memory (master + proc.tlsMasterCopy % 4096 + i)
  inside : alignup proc.tlsSize proc.tlsAlign ≤ tcbOffset proc ∧ tcbOffset proc + 24 + 8 ≤
    4096 * numPages proc

end Nx.ThreadTls
