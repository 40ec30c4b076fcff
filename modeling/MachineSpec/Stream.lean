import MachineSpec.Text.Utf8

/-!
# Streams

Where bytes come from and where they go, piece by piece, and what can go wrong there.

* `Stream.Failure`    what went wrong: a kind and a text
* `Stream.Source`     bytes in pieces, and perhaps a failure in place of their end
* `Source.read`       one call for some of them
* `Source.drain`      calls until the end
* `Stream.Sink`       bytes that have been taken, and how many more there is room for
* `Stream.writeAll`   writes bytes until all of them have been taken
-/

namespace MachineSpec.Stream

/-- the kinds of failure that end reading or writing; a call that is merely interrupted is made
again -/
inductive FailureKind where
  | notFound
  | permissionDenied
  | connectionRefused
  | connectionReset
  | hostUnreachable
  | networkUnreachable
  | connectionAborted
  | notConnected
  | addressInUse
  | addressNotAvailable
  | networkDown
  | brokenPipe
  | alreadyExists
  | wouldBlock
  | notADirectory
  | isADirectory
  | directoryNotEmpty
  | readOnlyFilesystem
  | filesystemLoop
  | staleNetworkFileHandle
  | invalidInput
  | invalidData
  | timedOut
  | writeZero
  | storageFull
  | notSeekable
  | quotaExceeded
  | fileTooLarge
  | resourceBusy
  | executableFileBusy
  | deadlock
  | crossesDevices
  | tooManyLinks
  | invalidFilename
  | argumentListTooLong
  | unsupported
  | unexpectedEof
  | outOfMemory
  | inProgress
  | other
  | uncategorized
  deriving DecidableEq, Repr

structure Failure where
  kind : FailureKind
  text : String
  deriving DecidableEq, Repr

/-- a sink that takes nothing and says nothing -/
def Failure.stalled : Failure := ⟨.writeZero, "failed to write whole buffer"⟩

/-! ## reading -/

/-- bytes in pieces, none of them empty, and perhaps a failure in place of their end -/
structure Source where
  chunks : List Bytes
  failure? : Option Failure := none
  filled : [] ∉ chunks := by simp
  deriving Repr

namespace Source

def bytes (s : Source) : Bytes := s.chunks.flatten

/-- puts bytes in front, if there are any -/
def unread (bs : Bytes) (s : Source) : Source :=
  match bs with
  | [] => s
  | b :: t =>
    { s with
      chunks := (b :: t) :: s.chunks
      filled := List.not_mem_cons_of_ne_of_not_mem (List.cons_ne_nil b t).symm s.filled }

/-- one call with room for some bytes: what of the next piece fits in there, and what is left;
nothing means the end -/
def read (room : Nat) (s : Source) : Except Failure (Bytes × Source) :=
  match h : s.chunks with
  | [] =>
    match s.failure? with
    | some f => .error f
    | none => .ok ([], s)
  | c :: cs =>
    let rest : Source := ⟨cs, s.failure?, fun hn => s.filled (h ▸ List.mem_cons_of_mem c hn)⟩
    .ok (c.take room, rest.unread (c.drop room))

@[simp] theorem failure?_unread (bs : Bytes) (s : Source) :
    (s.unread bs).failure? = s.failure? := by
  cases bs <;> rfl

@[simp] theorem bytes_unread (bs : Bytes) (s : Source) : (s.unread bs).bytes = bs ++ s.bytes := by
  cases bs <;> rfl

/-- a call loses no byte, and does not touch the failure -/
theorem bytes_of_read {room : Nat} {s rest : Source} {bs : Bytes}
    (h : s.read room = .ok (bs, rest)) :
    s.bytes = bs ++ rest.bytes ∧ rest.failure? = s.failure? := by
  unfold read at h
  split at h
  · split at h
    · cases h
    · cases h
      exact ⟨rfl, rfl⟩
  · next c cs hc =>
    cases h
    refine ⟨?_, failure?_unread _ _⟩
    rw [bytes_unread, ← List.append_assoc, List.take_append_drop]
    exact congrArg List.flatten hc

/-- the bytes of a source up to its end, in calls with room for some bytes each, and the failure in
place of the end -/
def drain (room : Nat) (s : Source) : Bytes × Option Failure :=
  match _h : s.read room with
  | .error f => ([], some f)
  | .ok ([], _) => ([], none)
  | .ok (b :: t, rest) =>
    let (bs, failure?) := drain room rest
    (b :: t ++ bs, failure?)
termination_by s.bytes.length
decreasing_by
  rw [(bytes_of_read _h).1]
  simp only [List.length_append, List.length_cons]
  omega

/-- the room of a call when all bytes are wanted -/
def bufferSize : Nat := 0x2000

/-- every byte, unless reading fails before the end -/
def readAll (s : Source) : Except Failure Bytes :=
  match s.drain bufferSize with
  | (_, some f) => .error f
  | (bs, none) => .ok bs

/-- bytes in pieces of `size`; the last one may be shorter -/
def cut (size : Nat) (bs : Bytes) : List Bytes :=
  match _h : bs with
  | [] => []
  | b :: t => (b :: t.take (size - 1)) :: cut size (t.drop (size - 1))
termination_by bs.length
decreasing_by
  simp only [List.length_drop, List.length_cons]
  omega

theorem nil_notMem_cut (size : Nat) (bs : Bytes) : [] ∉ cut size bs := by
  fun_induction cut size bs with
  | case1 => exact List.not_mem_nil
  | case2 b t ih => exact List.not_mem_cons_of_ne_of_not_mem (List.cons_ne_nil _ _).symm ih

/-- a source of bytes in pieces of one size -/
def ofBytes (size : Nat) (bs : Bytes) (failure? : Option Failure) : Source :=
  ⟨cut size bs, failure?, nil_notMem_cut size bs⟩

end Source

/-! ## writing -/

/-- bytes that have been taken, and how many more there is room for; without room a sink fails, or
takes nothing -/
structure Sink where
  room? : Option Nat := none
  failure? : Option Failure := none
  written : Bytes := []
  deriving Repr

abbrev Writing := ExceptT Failure (StateM Sink)

namespace Sink

def accepts (s : Sink) (n : Nat) : Nat :=
  match s.room? with
  | none => n
  | some m => min m n

def push (s : Sink) (bs : Bytes) : Sink :=
  { s with room? := s.room?.map (· - bs.length), written := s.written ++ bs }

end Sink

/-- offers bytes once, and says how many have been taken -/
def put (bs : Bytes) : Writing Nat := do
  let s ← get
  let n := s.accepts bs.length
  match n, s.failure? with
  | 0, some f => throw f
  | n, _ =>
    set (s.push (bs.take n))
    return n

/-- writes bytes until all of them have been taken -/
def writeAll (bs : Bytes) : Writing Unit :=
  match _h : bs with
  | [] => return ()
  | _ :: t => do
    match ← put bs with
    | 0 => throw Failure.stalled
    | n + 1 => writeAll (t.drop n)
termination_by bs.length
decreasing_by
  simp only [List.length_drop, List.length_cons]
  omega

end MachineSpec.Stream
