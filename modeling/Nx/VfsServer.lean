import Nx.Paths
import Nx.Transitions
import Nx.Words

/-!
The requests of services/vfs-svr/source (functions.cpp, registry.cpp, initrd.cpp).
-/

namespace Nx.VfsServer

open Words Scans Paths Function

structure MemTicket where
  ptr : Word
  len : Word
  ticketId : Word

structure Buffer where
  memTicketId : Word
  offset : Word
  length : Word

inductive Call where
  | register (ticket : Word)
  | deregister (ticket : Word)
  | bind (flags : Word) (path : Buffer)
  | open_ (flags : Word) (path : Buffer)
  | close
  | read (buffer : Buffer)
  | write
  | spawnFilesystem (fsType : Word)
  | registerFilesystem (fsType : Word) (serverPath : Buffer)
  | deregisterFilesystem
  | connectInitialRamdisk (initrd : Buffer)
  | unknown (op : Word)

def opRegister : Word := 0
def opDeregister : Word := 1
def opBind : Word := 2
def opOpen : Word := 3
def opClose : Word := 4
def opRead : Word := 5
def opWrite : Word := 6
def opConnectInitrd : Word := 0x100
def opSpawnFs : Word := 0x1000
def opRegisterFs : Word := 0x1001
def opDeregisterFs : Word := 0x1002

def errNotImplemented : Word := 1
def errInvalidBuffer : Word := 2
def errFileNotFound : Word := 4
def errFsCodeExists : Word := 0x1000

def bindFilesystem : Word := 1

inductive Answer where
  | reply (function : Word) (handle : Option Nat)
  | error (function code : Word)
  deriving DecidableEq

structure ProcessState where
  registeredTicket : MemTicket
  openHandles : List (Option Nat)

/-- `held` are the ids and addresses that the kernel has on record for the server, `missed` the
releases that found none, `sent` the answers. -/
structure VfsState where
  held : List (Word × Word)
  missed : List (Word × Word)
  vnodeTable : List Word
  processTable : Word → ProcessState
  mountedFilesystems : List Text
  registeredFilesystems : Word → Option Text
  sent : List Answer

/-- What the kernel answers during one request, and what memory holds. -/
structure World where
  userLen : Word → Word
  collected : Option Word
  text : Word → Word → Option Text
  mapped : Bool

@[simp] def VfsState.send (st : VfsState) (answer : Answer) :
    VfsState := { st with sent := st.sent ++ [answer] }

def VfsState.registered (st : VfsState) (pid : Word) :
    MemTicket := (st.processTable pid).registeredTicket

section Worlds

variable (world : World)

def findExistingMemoryTicket (st : VfsState) (id : Word) : MemTicket :=
  match st.held.find? (·.1 == id) with
  | none => ⟨0, 0, 0⟩
  | some (_, ptr) => ⟨ptr, world.userLen id, id⟩

def collectMemoryTicket (st : VfsState) (id : Word) : MemTicket × VfsState :=
  match world.collected with
  | none => (⟨0, 0, 0⟩, st)
  | some ptr => (⟨ptr, world.userLen id, id⟩, { st with held := (id, ptr) :: st.held })

def releaseMemoryTicket (st : VfsState) (ticket : MemTicket) : VfsState :=
  if (ticket.ticketId, ticket.ptr) ∈ st.held then
    { st with held := st.held.erase (ticket.ticketId, ticket.ptr) }
  else { st with missed := (ticket.ticketId, ticket.ptr) :: st.missed }

structure ReturnTicket where
  ptr : Word
  len : Word
  ticket : MemTicket
  release : Bool

def checkTicketBounds (buffer : Buffer) (ticket : MemTicket) (release : Bool) :
    Option ReturnTicket :=
  if buffer.offset > ticket.len ∨ buffer.offset + buffer.length > ticket.len then none
  else some ⟨ticket.ptr + buffer.offset, buffer.length, ticket, release⟩

def validateBuffer (st : VfsState) (buffer : Buffer) : Option ReturnTicket × VfsState :=
  let existing := findExistingMemoryTicket world st buffer.memTicketId
  if existing.ptr ≠ 0 then (checkTicketBounds buffer existing false, st)
  else
    let (mt, st) := collectMemoryTicket world st buffer.memTicketId
    if mt.ptr = 0 then (none, st) else (checkTicketBounds buffer mt true, st)

def validateBufferOf (st : VfsState) (pid : Word) (buffer : Buffer) :
    Option ReturnTicket × VfsState :=
  let x := (st.registered pid).ticketId
  if x ≠ 0 ∧ x = buffer.memTicketId then (checkTicketBounds buffer (st.registered pid) false, st)
  else validateBuffer world st buffer

def ReturnTicket.giveBack (ret : ReturnTicket) (st : VfsState) : VfsState :=
  if ret.release then releaseMemoryTicket st ret.ticket else st

def ReturnTicket.text (ret : ReturnTicket) (world : World) : Except Stop Text :=
  match world.text ret.ptr ret.len with
  | none => .error (.readOutside ret.ptr.toNat)
  | some text => .ok text

def getFreeHandle (st : VfsState) (pid : Word) (vnode : Nat) : Nat × VfsState :=
  let pst := st.processTable pid
  let i := pst.openHandles.findIdx Option.isNone
  let openHandles := if i < pst.openHandles.length then pst.openHandles.set i
      (some vnode) else pst.openHandles ++ [some vnode]
  (i, { st with processTable := update st.processTable pid { pst with openHandles } })

def getFreeVnode (st : VfsState) : Nat × VfsState :=
  let i := st.vnodeTable.findIdx (· == 0)
  (i, if i < st.vnodeTable.length then st else { st with vnodeTable := st.vnodeTable ++ [0] })

def registerProc (st : VfsState) (pid ticket : Word) : VfsState :=
  let st := if (st.registered pid).ptr ≠ 0 then releaseMemoryTicket st (st.registered pid) else st
  let (registeredTicket, st) := collectMemoryTicket world st ticket
  VfsState.send
    { st with processTable := update st.processTable pid { st.processTable pid with registeredTicket } }
    (.reply opRegister none)

def unregisterProc (st : VfsState) (pid : Word) : VfsState :=
  if (st.registered pid).ptr = 0 then st
  else (releaseMemoryTicket st (st.registered pid)).send (.reply opDeregister none)

def withBuffer (validated : Option ReturnTicket × VfsState) (function : Word)
    (body : ReturnTicket → VfsState → Except Stop VfsState) : Except Stop VfsState :=
  match validated.1 with
  | none => .ok (validated.2.send (.error function errInvalidBuffer))
  | some ret => body ret validated.2

def rpcBind (st : VfsState) (pid flags : Word) (path : Buffer) : Except Stop VfsState :=
  withBuffer (validateBufferOf world st pid path) opOpen fun ret st => do
    let _ ← ret.text world
    let st := ret.giveBack st
    pure (if flags &&& bindFilesystem ≠ 0 then st else st.send (.error opBind errNotImplemented))

def rpcOpen (st : VfsState) (pid : Word) (path : Buffer) : Except Stop VfsState :=
  withBuffer (validateBufferOf world st pid path) opOpen fun ret st => do
    let path ← ret.text world
    match ← getFilesystemForPath st.mountedFilesystems path with
    | none => pure (st.send (.error opOpen errFileNotFound))
    | some _ =>
      let (vni, st) := getFreeVnode st
      if vni = 0 then .error (.abort "vni != 0")
      else
        let (fd, st) := getFreeHandle st pid vni
        pure ((ret.giveBack st).send (.reply opOpen (some fd)))

def rpcRead (st : VfsState) (pid : Word) (buffer : Buffer) : Except Stop VfsState :=
  withBuffer (validateBufferOf world st pid buffer) opRead fun ret st =>
    pure ((ret.giveBack st).send (.error opRead errNotImplemented))

def enterFilesystem (st : VfsState) (fsType : Word) (serverPath : Text) : VfsState :=
  let st := if st.registeredFilesystems fsType = none then st else st.send
      (.error opRegisterFs errFsCodeExists)
  VfsState.send { st with registeredFilesystems := update st.registeredFilesystems fsType (some serverPath) }
    (.reply opRegisterFs none)

def rpcRegisterFs (st : VfsState) (fsType : Word) (serverPath : Buffer) : Except Stop VfsState :=
  withBuffer (validateBuffer world st serverPath) opRegisterFs fun ret st => do
    let serverPath ← ret.text world
    pure (enterFilesystem (ret.giveBack st) fsType serverPath)

def rpcConnectInitrd (st : VfsState) (initrd : Buffer) : Except Stop VfsState :=
  withBuffer (validateBuffer world st initrd) opConnectInitrd fun ret st => do
    let _ ← ret.text world
    if world.mapped then pure (ret.giveBack st) else .error (.abort "memcpy")

def handleCall (st : VfsState) (pid : Word) (call : Call) : Except Stop VfsState :=
  match call with
  | .register ticket => .ok (registerProc world st pid ticket)
  | .deregister _ => .ok (unregisterProc st pid)
  | .bind flags path => rpcBind world st pid flags path
  | .open_ _ path => rpcOpen world st pid path
  | .close => .ok (st.send (.error opClose errNotImplemented))
  | .read buffer => rpcRead world st pid buffer
  | .write => .ok (st.send (.error opWrite errNotImplemented))
  | .spawnFilesystem _ => .ok (st.send (.error opSpawnFs errNotImplemented))
  | .registerFilesystem fsType serverPath => rpcRegisterFs world st fsType serverPath
  | .deregisterFilesystem => .ok (st.send (.error opDeregisterFs errNotImplemented))
  | .connectInitialRamdisk initrd => rpcConnectInitrd world st initrd
  | .unknown _ => .ok st

end Worlds

variable {world : World} {st after : VfsState} {pid : Word} {buffer : Buffer} {ret : ReturnTicket}

/-! What a buffer that was accepted is. -/

theorem bounds_some (accepted : checkTicketBounds buffer ticket release = some ret) :
    ret = ⟨ticket.ptr + buffer.offset, buffer.length, ticket, release⟩ ∧
      buffer.offset + buffer.length ≤ ticket.len := by
  obtain ⟨inside, same⟩ := Option.ite_none_left_eq_some.mp accepted
  rw [not_or, BitVec.not_lt, BitVec.not_lt] at inside
  exact ⟨(Option.some.inj same).symm, inside.2⟩

/-- A ticket that the buffer lies in; it is collected and to be given back, or nothing is collected.
-/
structure Validates (st : VfsState) (buffer : Buffer) (ret : ReturnTicket) (after : VfsState) :
    Prop where
  checked : ∃ release, checkTicketBounds buffer ret.ticket release = some ret
  collected : ret.release = false ∧ after = st ∨
    ret.release = true ∧
      after = { st with held := (ret.ticket.ticketId, ret.ticket.ptr) :: st.held }

theorem checked_existing (accepted : (checkTicketBounds buffer ticket false, st) =
    (some ret, after)) :
    Validates st buffer ret after := by
  obtain ⟨some_, rfl⟩ := Prod.mk.inj accepted
  obtain ⟨rfl, _⟩ := bounds_some some_
  exact ⟨⟨_, some_⟩, .inl ⟨rfl, rfl⟩⟩

theorem validated (accepted : validateBuffer world st buffer = (some ret, after)) :
    Validates st buffer ret after := by
  rw [validateBuffer] at accepted
  split at accepted
  next => exact checked_existing accepted
  next =>
    unfold collectMemoryTicket at accepted
    cases collects : world.collected with
    | none =>
      rw [collects] at accepted
      cases accepted
    | some =>
      rw [collects] at accepted
      dsimp only at accepted
      split at accepted
      · cases accepted
      · obtain ⟨some_, rfl⟩ := Prod.mk.inj accepted
        obtain ⟨rfl, _⟩ := bounds_some some_
        exact ⟨⟨_, some_⟩, .inr ⟨rfl, rfl⟩⟩

theorem validatedOf (accepted : validateBufferOf world st pid buffer = (some ret, after)) :
    Validates st buffer ret after := by
  rw [validateBufferOf] at accepted
  split at accepted
  next => exact checked_existing accepted
  next => exact validated accepted

/-- The range lies inside of the ticket, unless its end is not a 64-bit number. -/
theorem validated_inside_iff (accepted : (validateBuffer world st buffer).1 = some ret ∨
      (validateBufferOf world st pid buffer).1 = some ret) :
    ret.ptr = ret.ticket.ptr + buffer.offset ∧ ret.len = buffer.length ∧
      (buffer.offset.toNat + buffer.length.toNat ≤ ret.ticket.len.toNat ↔
        buffer.offset.toNat + buffer.length.toNat < 2 ^ 64) := by
  obtain ⟨release, checked⟩ : ∃ release, checkTicketBounds buffer ret.ticket release =
      some ret := by
    rcases accepted with plain | registered
    · exact (validated (Prod.ext plain rfl)).checked
    · exact (validatedOf (Prod.ext registered rfl)).checked
  obtain ⟨same, inside⟩ := bounds_some checked
  refine ⟨congrArg ReturnTicket.ptr same, congrArg ReturnTicket.len same, fun within =>
    ?_, fun fits => ?_⟩
  · exact within.trans_lt ret.ticket.len.isLt
  · rwa [BitVec.le_def, BitVec.toNat_add_of_lt fits] at inside

/-- A server that has not handled any request, and a kernel that has a ticket of one page at 0x1000.
-/
def boot : VfsState := ⟨[], [], [], fun _ => ⟨⟨0, 0, 0⟩, []⟩, [], fun _ => none, []⟩

def onePage : World := ⟨fun _ => 4096, some 0x1000, fun _ _ => some [slash, 0x61], true⟩

theorem validated_inside_page : ∃ ret, (validateBuffer onePage boot ⟨1, 96, 4000⟩).1 = some ret ∧
    (4096 ≤ ret.ticket.len.toNat ↔ 4096 < 2 ^ 64) :=
  ⟨_, rfl, (@validated_inside_iff onePage boot 0 ⟨1, 96, 4000⟩ _ (.inl rfl)).2.2⟩

/-- A length of 2^64 - 1 from the second byte on. -/
theorem validated_outside : ∃ ret, (validateBuffer onePage boot ⟨1, 1, -1⟩).1 = some ret ∧
    (1 : Word).toNat + (-1 : Word).toNat > ret.ticket.len.toNat :=
  ⟨_, rfl, by decide⟩

/-! How many answers a request gets. -/

def AnswersOnce (st : VfsState) (program : Except Stop VfsState) : Prop :=
  ∃ after, program = .ok after ∧ after.sent.length = st.sent.length + 1

/-- The requests that nothing goes wrong with. An unknown one never is among them, nor is a ramdisk
whose buffer is accepted. -/
def Answers (world : World) (st : VfsState) (pid : Word) : Call → Prop
  | .deregister _ => (st.registered pid).ptr ≠ 0
  | .bind flags path => ∀ ret, (validateBufferOf world st pid path).1 = some ret →
      ∃ text, world.text ret.ptr ret.len = some text ∧ flags &&& bindFilesystem = 0
  | .open_ _ path => ∀ ret, (validateBufferOf world st pid path).1 = some ret →
      ∃ text, world.text ret.ptr ret.len = some text ∧ ∃ found,
        getFilesystemForPath st.mountedFilesystems text = .ok found ∧
          (found ≠ none → (getFreeVnode st).1 ≠ 0)
  | .registerFilesystem fsType serverPath =>
    ∀ ret, (validateBuffer world st serverPath).1 = some ret →
      ∃ text, world.text ret.ptr ret.len = some text ∧ st.registeredFilesystems fsType = none
  | .connectInitialRamdisk initrd => (validateBuffer world st initrd).1 = none
  | .unknown _ => False
  | _ => True

theorem text_ok {text} (isText : world.text ret.ptr ret.len = some text) :
    ret.text world = .ok text := by
  rw [ReturnTicket.text, isText]

structure Framed (st after : VfsState) : Prop where
  sent : after.sent = st.sent
  vnodeTable : after.vnodeTable = st.vnodeTable
  processTable : after.processTable = st.processTable
  mountedFilesystems : after.mountedFilesystems = st.mountedFilesystems
  registeredFilesystems : after.registeredFilesystems = st.registeredFilesystems

theorem Framed.trans (first : Framed st mid) (second : Framed mid after) : Framed st after :=
  ⟨second.sent.trans first.sent, second.vnodeTable.trans first.vnodeTable,
    second.processTable.trans first.processTable,
    second.mountedFilesystems.trans first.mountedFilesystems,
    second.registeredFilesystems.trans first.registeredFilesystems⟩

theorem release_framed (st : VfsState) (ticket : MemTicket) :
    Framed st (releaseMemoryTicket st ticket) := by
  unfold releaseMemoryTicket
  split <;> exact ⟨rfl, rfl, rfl, rfl, rfl⟩

theorem giveBack_framed (ret : ReturnTicket) (st : VfsState) : Framed st (ret.giveBack st) := by
  unfold ReturnTicket.giveBack
  split
  · exact release_framed st _
  · exact ⟨rfl, rfl, rfl, rfl, rfl⟩

theorem validate_framed (world : World) (st : VfsState) (buffer : Buffer) :
    Framed st (validateBuffer world st buffer).2 := by
  unfold validateBuffer collectMemoryTicket
  dsimp only
  split
  · exact ⟨rfl, rfl, rfl, rfl, rfl⟩
  · cases world.collected <;> dsimp only <;> split <;> exact ⟨rfl, rfl, rfl, rfl, rfl⟩

theorem validateOf_framed (world : World) (st : VfsState) (pid : Word) (buffer : Buffer) :
    Framed st (validateBufferOf world st pid buffer).2 := by
  unfold validateBufferOf
  dsimp only
  split
  · exact ⟨rfl, rfl, rfl, rfl, rfl⟩
  · exact validate_framed world st buffer

theorem getFreeVnode_framed {st other} (same : other.vnodeTable = st.vnodeTable) :
    (getFreeVnode other).1 = (getFreeVnode st).1 ∧ (getFreeVnode other).2.sent = other.sent := by
  unfold getFreeVnode
  rw [same]
  refine ⟨rfl, ?_⟩
  dsimp only
  split <;> rfl

theorem once_ok (done : program = .ok after) :
    AnswersOnce st program ↔ after.sent.length = st.sent.length + 1 := by
  subst done
  simp [AnswersOnce]

@[simp] theorem once_pure : AnswersOnce st (pure after) ↔ after.sent.length = st.sent.length + 1 :=
  once_ok rfl

theorem once_error (stopped : program = .error stop) : ¬ AnswersOnce st program := by
  subst stopped
  simp [AnswersOnce]

theorem once_withBuffer {validated} (framed : Framed st validated.2) :
    AnswersOnce st (withBuffer validated function body) ↔ ∀ ret, validated.1 = some ret →
    AnswersOnce st (body ret validated.2) := by
  unfold withBuffer
  cases validated.1 with
  | none => simp [once_ok rfl, framed.sent]
  | some => simp

theorem once_text : AnswersOnce st (ret.text world >>= body) ↔
    ∃ text, world.text ret.ptr ret.len = some text ∧ AnswersOnce st (body text) := by
  cases read : world.text ret.ptr ret.len with
  | none =>
    have stopped : ret.text world = .error (.readOutside ret.ptr.toNat) :=
      by rw [ReturnTicket.text, read]
    exact iff_of_false (once_error (bind_error stopped)) nofun
  | some =>
    rw [bind_ok (text_ok read)]
    simp

theorem bind_once (flags : Word) (path : Buffer) :
    AnswersOnce st (rpcBind world st pid flags path) ↔ Answers world st pid (.bind flags path) := by
  have framed := validateOf_framed world st pid path
  refine (once_withBuffer framed).trans (forall₂_congr fun ret _ => once_text.trans
    (exists_congr fun _ => and_congr_right fun _ => ?_))
  have given := (framed.trans (giveBack_framed ret _)).sent
  rw [once_pure]
  split
  next set => exact iff_of_false (by simp [given]) set
  next clear => exact iff_of_true (by simp [given]) (not_not.mp clear)

theorem open_once (flags : Word) (path : Buffer) :
    AnswersOnce st (rpcOpen world st pid path) ↔ Answers world st pid (.open_ flags path) := by
  have framed := validateOf_framed world st pid path
  refine (once_withBuffer framed).trans (forall₂_congr fun ret _ => once_text.trans
    (exists_congr fun text => and_congr_right fun _ => ?_))
  generalize (validateBufferOf world st pid path).2 = mid at framed
  rw [framed.mountedFilesystems]
  cases found : getFilesystemForPath st.mountedFilesystems text with
  | error => exact iff_of_false (once_error (bind_error rfl)) nofun
  | ok fs =>
    have ⟨vni, sent⟩ := getFreeVnode_framed framed.vnodeTable
    rw [bind_ok rfl]
    cases fs with
    | none => simp [framed.sent]
    | some =>
      dsimp only
      by_cases first : (getFreeVnode st).1 = 0
      · rw [if_pos (vni.trans first)]
        exact iff_of_false (once_error rfl) (by simp [first])
      · have handle :
            (ret.giveBack (getFreeHandle (getFreeVnode mid).2 pid (getFreeVnode mid).1).2).sent =
              mid.sent :=
          (giveBack_framed ret _).sent.trans sent
        rw [if_neg (vni ▸ first), once_pure]
        simp [first, handle, framed.sent]

theorem read_once (buffer : Buffer) : AnswersOnce st (rpcRead world st pid buffer) := by
  have framed := validateOf_framed world st pid buffer
  refine (once_withBuffer framed).mpr fun ret _ => once_pure.mpr ?_
  simp [(framed.trans (giveBack_framed ret _)).sent]

theorem enter_sends (framed : Framed st after) (fsType : Word) (text : Text) :
    (enterFilesystem after fsType text).sent = st.sent ++
      (if st.registeredFilesystems fsType = none then []
      else [.error opRegisterFs errFsCodeExists]) ++ [.reply opRegisterFs none] ∧
    (enterFilesystem after fsType text).registeredFilesystems =
      update st.registeredFilesystems fsType (some text) := by
  unfold enterFilesystem
  rw [framed.registeredFilesystems]
  split <;> simp [framed.sent, framed.registeredFilesystems]

theorem registerFs_once (fsType : Word) (serverPath : Buffer) :
    AnswersOnce st (rpcRegisterFs world st fsType serverPath) ↔
    Answers world st pid (.registerFilesystem fsType serverPath) := by
  have framed := validate_framed world st serverPath
  refine (once_withBuffer framed).trans (forall₂_congr fun ret _ => once_text.trans
    (exists_congr fun text => and_congr_right fun _ => ?_))
  rw [once_pure, (enter_sends (framed.trans (giveBack_framed ret _)) fsType text).1]
  split <;> simp [*]

theorem connectInitrd_once (initrd : Buffer) :
    AnswersOnce st (rpcConnectInitrd world st initrd) ↔
      Answers world st pid (.connectInitialRamdisk initrd) := by
  have framed := validate_framed world st initrd
  refine (once_withBuffer framed).trans (Iff.trans (forall₂_congr fun ret _ => iff_of_false ?_ id)
    Option.eq_none_iff_forall_ne_some.symm)
  rw [once_text]
  rintro ⟨_, _, once⟩
  split at once
  · have given := (framed.trans (giveBack_framed ret _)).sent
    simp [given] at once
  · exact once_error rfl once

/-- A request is answered once if nothing goes wrong with it, and only then; a file system of a
type that is there already takes its place, and there are an error and a reply. -/
theorem answered_once_iff (world : World) (st : VfsState) (pid : Word) (call : Call) :
    (AnswersOnce st (handleCall world st pid call) ↔ Answers world st pid call) ∧
      ∀ fsType serverPath ret text, (validateBuffer world st serverPath).1 = some ret →
        world.text ret.ptr ret.len = some text → st.registeredFilesystems fsType ≠ none →
        ∃ after, handleCall world st pid (.registerFilesystem fsType serverPath) = .ok after ∧
          after.sent = st.sent ++ [.error opRegisterFs errFsCodeExists, .reply opRegisterFs none] ∧
          after.registeredFilesystems = update st.registeredFilesystems fsType (some text) := by
  constructor
  · cases call with
    | register ticket =>
      have sent : (registerProc world st pid ticket).sent = st.sent ++
          [.reply opRegister none] := by
        unfold registerProc collectMemoryTicket
        cases world.collected <;> dsimp only [VfsState.send] <;> split <;>
          simp [(release_framed _ _).sent]
      simp [Answers, handleCall, once_ok rfl, sent]
    | deregister =>
      by_cases none_ : (st.registered pid).ptr = 0
      · simp [Answers, handleCall, once_ok rfl, unregisterProc, none_]
      · rw [handleCall, once_ok rfl, unregisterProc, if_neg none_]
        exact iff_of_true (by simp [(release_framed _ _).sent]) none_
    | bind flags path => exact bind_once flags path
    | open_ flags path => exact open_once flags path
    | read buffer => exact iff_of_true (read_once buffer) trivial
    | registerFilesystem fsType serverPath => exact registerFs_once fsType serverPath
    | connectInitialRamdisk initrd => exact connectInitrd_once initrd
    | unknown => simp [Answers, handleCall, once_ok rfl]
    | close | write | spawnFilesystem | deregisterFilesystem =>
      simp [Answers, handleCall, once_ok rfl]
  · intro fsType serverPath ret text accepted isText known
    have sends := enter_sends ((validate_framed world st serverPath).trans (giveBack_framed ret _))
        fsType text
    rw [if_neg known, List.append_assoc] at sends
    refine ⟨_, ?_, sends⟩
    rw [handleCall, rpcRegisterFs, withBuffer, accepted]
    exact bind_ok (text_ok isText)

/-- Requests that get no answer, and one that gets two: the first process registers the type 1
twice. -/
theorem answered_otherwise : (∃ after, handleCall onePage boot 1 (.deregister 1) = .ok after ∧
    after.sent = []) ∧
    (∃ after, handleCall onePage boot 1 (.bind 1 ⟨1, 0, 1⟩) = .ok after ∧ after.sent = []) ∧
    (∃ after, handleCall onePage boot 1 (.connectInitialRamdisk ⟨1, 0, 1⟩) = .ok after ∧
      after.sent = []) ∧
    (∃ after, handleCall onePage boot 1 (.unknown 7) = .ok after ∧ after.sent = []) ∧
    ∃ first second, handleCall onePage boot 1 (.registerFilesystem 1 ⟨1, 0, 1⟩) = .ok first ∧
    handleCall onePage first 1 (.registerFilesystem 1 ⟨1, 0, 1⟩) = .ok second ∧
    second.sent = first.sent ++ [.error opRegisterFs errFsCodeExists, .reply opRegisterFs none] :=
  ⟨⟨_, rfl, rfl⟩, ⟨_, rfl, rfl⟩, ⟨_, rfl, rfl⟩, ⟨_, rfl, rfl⟩, _, _, rfl, rfl, rfl⟩

end Nx.VfsServer
