import LevelDbXy.Library.Buffer
import LevelDbXy.Library.Machine
import LevelDbXy.Library.Ownership
import LevelDbXy.Util.Coding
import LevelDbXy.Util.Status

/-!
# The memory behind a `Status`

`util/status.h` and `util/status.cpp`: a `Status` holds a null pointer or a block it has
allocated, which it copies, hands over, swaps and deletes by hand. A program constructs,
copies, assigns, moves and destroys any number of them on one heap, whose allocator may
return any free address.
-/

namespace LevelDbXy.StatusMemory

open Coding

/-- The bytes behind a `state_`; `none` where none was stored yet. -/
abbrev Block := List (Option UInt8)

/-- The byte of a code. -/
def codeByte : Status.Code → UInt8
  | .kOk => 0
  | .kNotFound => 1
  | .kCorruption => 2
  | .kNotSupported => 3
  | .kInvalidArgument => 4
  | .kIOError => 5

/-! ### The functions of `status.cpp` -/

/-- The block that `Status::Status` allocates and fills. -/
def newState (code : Status.Code) (msg msg2 : Bytes) : Option Block := do
  let len1 := truncU32 msg.length
  let len2 := truncU32 msg2.length
  let size := truncU32 (len1 + if len2 ≠ 0 then 2 + len2 else 0)
  let result := List.replicate (truncU32 (size + 5)) none
  let result ← Buffer.write result 0 (encodeFixed32 size)
  let result ← Buffer.write result 4 [codeByte code]
  let result ← Buffer.write result 5 (msg.take len1)
  if len2 ≠ 0 then
    let result ← Buffer.write result (truncU32 (5 + len1)) [58]
    let result ← Buffer.write result (truncU32 (6 + len1)) [32]
    Buffer.write result (7 + len1) (msg2.take len2)
  else some result

/-- `Status::CopyState`. -/
def copyState (state : Block) : Option Block := do
  let size := decodeFixed32 (← Buffer.read state 0 4)
  let result := List.replicate (truncU32 (size + 5)) none
  Buffer.write result 0 (← Buffer.read state 0 (truncU32 (size + 5)))

/-- The bytes of a text. -/
def utf8 (text : String) : Bytes := text.toUTF8.data.toList

/-- The name of a code in `ToString`. -/
def typeText (code : UInt8) : String :=
  match code.toNat with
  | 0 => "OK"
  | 1 => "NotFound: "
  | 2 => "Corruption: "
  | 3 => "Not implemented: "
  | 4 => "Invalid argument: "
  | 5 => "IO error: "
  | value => "Unknown code(" ++ toString (Int.bmod value 256) ++ "): "

/-! ### Programs -/

/-- The heap, and the `state_` of every variable that lives. -/
structure State (Var : Type) where
  heap : Nat → Option Block
  vars : Var → Option (Option Nat)

/-- No variable lives and nothing is allocated. -/
def State.initial {Var : Type} : State Var := ⟨fun _ => none, fun _ => none⟩

/-- What a program does with its variables; `address` is what `new[]` returns, if it is called. -/
inductive Op (Var : Type) where
  | construct (v : Var)
  | constructError (v : Var) (code : Status.Code) (msg msg2 : Bytes) (address : Nat)
  | copyConstruct (v rhs : Var) (address : Nat)
  | copyAssign (v rhs : Var) (address : Nat)
  | moveConstruct (v rhs : Var)
  | moveAssign (v rhs : Var)
  | destroy (v : Var)

variable {Var : Type} [DecidableEq Var]

/-- The variable lives with this `state_`. -/
def State.set (state : State Var) (v : Var) (state_ : Option Nat) : State Var :=
  { state with vars := Function.update state.vars v (some state_) }

/-- `new[]` returns a free address. -/
def State.allocate (state : State Var) (address : Nat) (block : Block) : Option (State Var) :=
  match state.heap address with
  | none => some { state with heap := Function.update state.heap address (some block) }
  | some _ => none

/-- `delete[]` of null does nothing; of an address that is not allocated it is undefined. -/
def State.delete (state : State Var) : Option Nat → Option (State Var)
  | none => some state
  | some address =>
    match state.heap address with
    | none => none
    | some _ => some { state with heap := Function.update state.heap address none }

/-- `rhs.state_ == nullptr ? nullptr : CopyState(rhs.state_)`. -/
def State.copy (state : State Var) (rhs : Option Nat) (address : Nat) :
    Option (State Var × Option Nat) :=
  match rhs with
  | none => some (state, none)
  | some source => do
    let block ← state.heap source
    let copied ← copyState block
    let allocated ← state.allocate address copied
    some (allocated, some address)

/-- One operation; `none` where its behaviour is undefined. -/
def step (state : State Var) : Op Var → Option (State Var)
  | .construct v =>
    match state.vars v with
    | none => some (state.set v none)
    | some _ => none
  | .constructError v code msg msg2 address =>
    match state.vars v with
    | none => do
      let block ← newState code msg msg2
      let allocated ← state.allocate address block
      some (allocated.set v (some address))
    | some _ => none
  | .copyConstruct v rhs address =>
    match state.vars v with
    | none => do
      let source ← state.vars rhs
      let (copied, state_) ← state.copy source address
      some (copied.set v state_)
    | some _ => none
  | .copyAssign v rhs address => do
    let own ← state.vars v
    let source ← state.vars rhs
    if own ≠ source then
      let deleted ← state.delete own
      let (copied, state_) ← deleted.copy source address
      some (copied.set v state_)
    else some state
  | .moveConstruct v rhs =>
    match state.vars v with
    | none => do
      let source ← state.vars rhs
      some ((state.set v source).set rhs none)
    | some _ => none
  | .moveAssign v rhs => do
    let own ← state.vars v
    let source ← state.vars rhs
    some ((state.set v source).set rhs own)
  | .destroy v => do
    let own ← state.vars v
    let deleted ← state.delete own
    some { deleted with vars := Function.update deleted.vars v none }

/-- `Status::ok`. -/
def State.ok (state : State Var) (v : Var) : Option Bool := do
  let own ← state.vars v
  some own.isNone

/-- `Status::code`, as a byte. -/
def State.code (state : State Var) (v : Var) : Option UInt8 := do
  match ← state.vars v with
  | none => some (codeByte .kOk)
  | some address =>
    let block ← state.heap address
    let code ← Buffer.read block 4 1
    code.head?

/-- `Status::ToString`. -/
def State.toString (state : State Var) (v : Var) : Option Bytes := do
  match ← state.vars v with
  | none => some (utf8 "OK")
  | some address =>
    let code ← state.code v
    let block ← state.heap address
    let length := decodeFixed32 (← Buffer.read block 0 4)
    let message ← Buffer.read block 5 length
    some (utf8 (typeText code) ++ message)

/-! ### What a `Status` stands for -/

/-- OK, or a code with a message. -/
abbrev Value := Option (Status.Code × Bytes)

/-- The two parts of a message. -/
def joined (msg msg2 : Bytes) : Bytes := if msg2 = [] then msg else msg ++ [58, 32] ++ msg2

/-- What an operation means for the values of the variables. -/
def meaning (values : Var → Option Value) : Op Var → Var → Option Value
  | .construct v => Function.update values v (some none)
  | .constructError v code msg msg2 _ =>
    Function.update values v (some (some (code, joined msg msg2)))
  | .copyConstruct v rhs _ => Function.update values v (values rhs)
  | .copyAssign v rhs _ => Function.update values v (values rhs)
  | .moveConstruct v rhs => Function.update (Function.update values v (values rhs)) rhs (some none)
  | .moveAssign v rhs => Function.update (Function.update values v (values rhs)) rhs (values v)
  | .destroy v => Function.update values v none

/-- What a program must keep to: variables live where they are used and not where they are
constructed, an error has a code other than `kOk` and a message whose size fits, and `new[]`
returns an address that is free then. -/
def Proper (state : State Var) : Op Var → Prop
  | .construct v => state.vars v = none
  | .constructError v code msg msg2 address => state.vars v = none ∧ code ≠ .kOk ∧
      (joined msg msg2).length + 5 < 2 ^ 32 ∧ state.heap address = none
  | .copyConstruct v rhs address => state.vars v = none ∧ (state.vars rhs).isSome ∧
      state.heap address = none
  | .copyAssign v rhs address => (state.vars v).isSome ∧ (state.vars rhs).isSome ∧
      (state.heap address = none ∨ state.vars v = some (some address))
  | .moveConstruct v rhs => state.vars v = none ∧ (state.vars rhs).isSome
  | .moveAssign v rhs => (state.vars v).isSome ∧ (state.vars rhs).isSome
  | .destroy v => (state.vars v).isSome

/-- The value of the `Status` with a text as its message. -/
def valueOf : Status → Value
  | .ok => none
  | .notFound msg => some (.kNotFound, utf8 msg)
  | .corruption msg => some (.kCorruption, utf8 msg)
  | .notSupported msg => some (.kNotSupported, utf8 msg)
  | .invalidArgument msg => some (.kInvalidArgument, utf8 msg)
  | .ioError msg => some (.kIOError, utf8 msg)

/-- The bytes of a message are those of its two texts joined. -/
theorem joined_utf8 (msg msg2 : String) :
    joined (utf8 msg) (utf8 msg2) = utf8 (Status.message msg msg2) := by
  have nothing : utf8 msg2 = [] ↔ msg2.isEmpty = true := by
    rw [utf8, String.isEmpty_iff, Array.toList_eq_nil_iff, ← String.toByteArray_inj,
      ByteArray.ext_iff]
    rfl
  have colon : utf8 ": " = [58, 32] := by decide
  rw [joined, Status.message]
  by_cases empty : msg2.isEmpty = true
  · rw [if_pos empty, if_pos (nothing.mpr empty)]
  · rw [if_neg empty, if_neg (mt nothing.mp empty), ← colon]
    simp [utf8]

/-- The `Status` with a code and a text. -/
def make : Status.Code → String → Status
  | .kOk, _ => .ok
  | .kNotFound, msg => .notFound msg
  | .kCorruption, msg => .corruption msg
  | .kNotSupported, msg => .notSupported msg
  | .kInvalidArgument, msg => .invalidArgument msg
  | .kIOError, msg => .ioError msg

/-- What the source builds from two texts is the `Status` with the text of `Status.message`. -/
theorem valueOf_make {code : Status.Code} (notOk : code ≠ .kOk) (msg msg2 : String) :
    valueOf (make code (Status.message msg msg2)) =
      some (code, joined (utf8 msg) (utf8 msg2)) := by
  rw [joined_utf8]
  cases code with
  | kOk => exact absurd rfl notOk
  | _ => rfl

/-! ### Blocks -/

/-- The block that status.h describes. -/
def layout (code : Status.Code) (message : Bytes) : Block :=
  Buffer.filled (encodeFixed32 message.length ++ [codeByte code] ++ message) 0

/-- The block after the length, the code and a part of the message. -/
theorem write_part (size : Nat) (code : Status.Code) (part more : Bytes) {room : Nat}
    (fits : more.length ≤ room) :
    Buffer.write (Buffer.filled (encodeFixed32 size ++ [codeByte code] ++ part) room)
        (5 + part.length) more =
      some (Buffer.filled (encodeFixed32 size ++ [codeByte code] ++ (part ++ more))
        (room - more.length)) := by
  have length : (encodeFixed32 size ++ [codeByte code] ++ part).length = 5 + part.length := by
    simp only [List.length_append, length_encodeFixed32, List.length_singleton]
  rw [← length, Buffer.write_filled _ _ fits, List.append_assoc _ part]

/-- What every block begins with. -/
theorem write_header {Result : Type} (code : Status.Code) (size : Nat)
    (rest : Block → Option Result) :
    (Buffer.write (List.replicate (size + 5) none) 0 (encodeFixed32 size)).bind
        (fun result => (Buffer.write result 4 [codeByte code]).bind rest) =
      rest (Buffer.filled (encodeFixed32 size ++ [codeByte code] ++ []) size) := by
  have first : Buffer.write (List.replicate (size + 5) none) 0 (encodeFixed32 size) =
      some (Buffer.filled (encodeFixed32 size) (size + 1)) :=
    @Buffer.write_filled _ [] (encodeFixed32 size) (size + 5) (Nat.le_add_left 4 _)
  have second : Buffer.write (Buffer.filled (encodeFixed32 size) (size + 1)) 4 [codeByte code] =
      some (Buffer.filled (encodeFixed32 size ++ [codeByte code]) size) :=
    @Buffer.write_filled _ (encodeFixed32 size) [codeByte code] (size + 1) (Nat.le_add_left 1 _)
  rw [first, Option.bind_some, second, Option.bind_some, List.append_nil]

/-- The constructor for errors fills a new block with the code and the joined message. -/
theorem newState_eq (code : Status.Code) (msg msg2 : Bytes)
    (fits : (joined msg msg2).length + 5 < 2 ^ 32) :
    newState code msg msg2 = some (layout code (joined msg msg2)) := by
  by_cases empty : msg2 = []
  · subst empty
    rw [joined, if_pos rfl] at fits ⊢
    have kept : truncU32 msg.length = msg.length := Nat.mod_eq_of_lt (by omega)
    have room : truncU32 (msg.length + 5) = msg.length + 5 := Nat.mod_eq_of_lt fits
    have message := write_part msg.length code [] msg (Nat.le_refl _)
    simp only [newState, List.length_nil, kept, room, Option.bind_eq_bind,
      show truncU32 0 = 0 from rfl, ne_eq, not_true, if_false, Nat.add_zero, List.take_length]
    rw [write_header, show 5 = 5 + ([] : Bytes).length from rfl, message, Option.bind_some,
      Nat.sub_self]
    rfl
  · have joins : joined msg msg2 = msg ++ [58] ++ [32] ++ msg2 := by
      rw [joined, if_neg empty]
      simp
    rw [joins] at fits ⊢
    simp only [List.length_append, List.length_singleton] at fits
    have kept : truncU32 msg.length = msg.length := Nat.mod_eq_of_lt (by omega)
    have kept2 : truncU32 msg2.length = msg2.length := Nat.mod_eq_of_lt (by omega)
    have some_ : msg2.length ≠ 0 := fun zero => empty (List.length_eq_zero_iff.mp zero)
    have sum : truncU32 (msg.length + (2 + msg2.length)) = msg.length + (2 + msg2.length) :=
      Nat.mod_eq_of_lt (by omega)
    have room : truncU32 (msg.length + (2 + msg2.length) + 5) =
        msg.length + (2 + msg2.length) + 5 := Nat.mod_eq_of_lt (by omega)
    have colonAt : truncU32 (5 + msg.length) = 5 + msg.length := Nat.mod_eq_of_lt (by omega)
    have spaceAt : truncU32 (6 + msg.length) = 6 + msg.length := Nat.mod_eq_of_lt (by omega)
    simp only [newState, kept, kept2, ne_eq, some_, not_false_eq_true, if_true, sum, room, colonAt,
      spaceAt, Option.bind_eq_bind, List.take_length]
    generalize size : msg.length + (2 + msg2.length) = total
    have message : Buffer.write (Buffer.filled (encodeFixed32 total ++ [codeByte code] ++ []) total)
        5 msg = _ := @write_part total code [] msg total (by omega)
    have colon := @write_part total code msg [58] (total - msg.length)
      (by rw [List.length_singleton]; omega)
    have space := @write_part total code (msg ++ [58]) [32] (total - msg.length - 1)
      (by rw [List.length_singleton]; omega)
    have second := @write_part total code (msg ++ [58] ++ [32]) msg2
      (total - msg.length - 1 - 1) (by omega)
    have spaceOffset : 5 + (msg ++ [58]).length = 6 + msg.length := by
      rw [List.length_append, List.length_singleton]
      omega
    have secondOffset : 5 + (msg ++ [58] ++ [32]).length = 7 + msg.length := by
      rw [List.length_append, List.length_append, List.length_singleton, List.length_singleton]
      omega
    rw [spaceOffset] at space
    rw [secondOffset] at second
    simp only [List.length_singleton] at colon space
    have noRoom : total - msg.length - 1 - 1 - msg2.length = 0 := by omega
    have length : (msg ++ [58] ++ [32] ++ msg2).length = total := by
      simp only [List.length_append, List.length_singleton]
      omega
    rw [write_header, message, List.nil_append, Option.bind_some, colon, Option.bind_some, space,
      Option.bind_some, second, layout, noRoom, length]

/-! ### What is read from a block -/

/-- The size is at the front of a block. -/
theorem read_layout_size (code : Status.Code) (message : Bytes) :
    Buffer.read (layout code message) 0 4 = some (encodeFixed32 message.length) := by
  have read := Buffer.read_filled [] (encodeFixed32 message.length) ([codeByte code] ++ message) 0
  rwa [List.nil_append, ← List.append_assoc] at read

/-- The code is behind the size. -/
theorem read_layout_code (code : Status.Code) (message : Bytes) :
    Buffer.read (layout code message) 4 1 = some [codeByte code] :=
  Buffer.read_filled (encodeFixed32 message.length) [codeByte code] message 0

/-- The message is behind the code. -/
theorem read_layout_message (code : Status.Code) (message : Bytes) :
    Buffer.read (layout code message) 5 message.length = some message := by
  have read := Buffer.read_filled (encodeFixed32 message.length ++ [codeByte code]) message [] 0
  rwa [List.append_nil] at read

/-- The size is decoded to what it was. -/
theorem decode_size {message : Bytes} (fits : message.length + 5 < 2 ^ 32) :
    decodeFixed32 (encodeFixed32 message.length) = message.length := by
  have decoded := decodeFixed32_encodeFixed32 message.length []
  rw [List.append_nil] at decoded
  rw [decoded]
  exact Nat.mod_eq_of_lt (by omega)

/-- `CopyState` copies a block. -/
theorem copyState_layout (code : Status.Code) {message : Bytes}
    (fits : message.length + 5 < 2 ^ 32) :
    copyState (layout code message) = some (layout code message) := by
  have room : truncU32 (message.length + 5) = message.length + 5 := Nat.mod_eq_of_lt fits
  let bytes := encodeFixed32 message.length ++ [codeByte code] ++ message
  have length : bytes.length = message.length + 5 := by
    simp only [bytes, List.length_append, length_encodeFixed32, List.length_singleton]
    omega
  have read := Buffer.read_filled [] bytes [] 0
  rw [List.nil_append, List.append_nil, length] at read
  have written := @Buffer.write_filled _ [] bytes (message.length + 5) (by omega)
  rw [length, Nat.sub_self] at written
  simp only [copyState, read_layout_size, Option.bind_eq_bind, Option.bind_some, decode_size fits,
    room]
  rw [show Buffer.read (layout code message) 0 (message.length + 5) = some bytes from read]
  exact written

/-! ### Every program -/

/-- The variable shows the value. -/
def Shows (heap : Nat → Option Block) : Option (Option Nat) → Option Value → Prop
  | none, none => True
  | some none, some none => True
  | some (some address), some (some (code, message)) => heap address = some (layout code message) ∧
      code ≠ .kOk ∧ message.length + 5 < 2 ^ 32
  | _, _ => False

/-- What a variable owns. -/
def State.owns (state : State Var) (v : Var) : Option Nat := (state.vars v).join

/-- Each allocated block is owned by one variable, and the variables show their values. -/
structure Represents (state : State Var) (values : Var → Option Value) : Prop where
  owned : Ownership.Owned state.owns state.heap
  shows : ∀ v, Shows state.heap (state.vars v) (values v)

variable {state : State Var} {values : Var → Option Value}

/-- The variable no longer lives. -/
def State.unset (state : State Var) (v : Var) : State Var :=
  { state with vars := Function.update state.vars v none }

/-- What a variable owns after its block has been set. -/
theorem owns_set (state : State Var) (v : Var) (state_ : Option Nat) :
    (state.set v state_).owns = Function.update state.owns v state_ := by
  funext other
  simp only [State.owns, State.set, Function.update_apply]
  split_ifs <;> rfl

/-- A variable that does not live owns nothing. -/
theorem owns_unset (state : State Var) (v : Var) :
    (state.unset v).owns = Function.update state.owns v none := by
  funext other
  simp only [State.owns, State.unset, Function.update_apply]
  split_ifs <;> rfl

omit [DecidableEq Var] in
/-- Only the block that is pointed to matters. -/
theorem Shows.congr {heap heap' : Nat → Option Block} {state_ : Option (Option Nat)}
    {value : Option Value} (shows : Shows heap state_ value)
    (same : ∀ address, state_ = some (some address) → heap' address = heap address) :
    Shows heap' state_ value := by
  match state_, value with
  | none, none => trivial
  | some none, some none => trivial
  | some (some address), some (some (code, message)) =>
    obtain ⟨stored, rest⟩ := shows
    exact ⟨(same address rfl).trans stored, rest⟩
  | none, some _ => exact shows
  | some none, none => exact shows
  | some none, some (some _) => exact shows
  | some (some _), none => exact shows
  | some (some _), some none => exact shows

/-- A variable that owns nothing gets a block. -/
theorem Represents.setBlock (represents : Represents state values) {v : Var} {address : Nat}
    (fresh : state.heap address = none) (nothing : state.owns v = none) {code : Status.Code}
    {message : Bytes} (notOk : code ≠ .kOk) (fits : message.length + 5 < 2 ^ 32) :
    ∃ allocated, state.allocate address (layout code message) = some allocated ∧
      Represents (allocated.set v (some address))
        (Function.update values v (some (some (code, message)))) := by
  refine ⟨{ state with heap := Function.update state.heap address (some (layout code message)) },
    by simp only [State.allocate, fresh], ?_, fun other => ?_⟩
  · rw [owns_set]
    exact represents.owned.allocate fresh nothing (layout code message)
  · simp only [State.set, Function.update_apply]
    split_ifs with same
    · exact ⟨Function.update_self .., notOk, fits⟩
    · refine (represents.shows other).congr fun own isOwn => Function.update_of_ne ?_ _ _
      rintro rfl
      obtain ⟨block, stored⟩ := represents.owned.allocated
        (show state.owns other = some own by rw [State.owns, isOwn, Option.join_some])
      rw [fresh] at stored
      cases stored

/-- A variable without a block is OK. -/
theorem Represents.setNull (represents : Represents state values) {v : Var}
    (nothing : state.owns v = none) :
    Represents (state.set v none) (Function.update values v (some none)) := by
  refine ⟨?_, fun other => ?_⟩
  · rw [owns_set, ← nothing, Function.update_eq_self]
    exact represents.owned
  · simp only [State.set, Function.update_apply]
    split_ifs
    · trivial
    · exact represents.shows other

/-- `delete[]` takes the block of a variable. -/
theorem Represents.delete (represents : Represents state values) {v : Var} {own : Option Nat}
    (lives : state.vars v = some own) :
    ∃ deleted, state.delete own = some deleted ∧ deleted.vars = state.vars ∧
      (∀ address, own = some address → deleted.heap address = none) ∧
      (∀ address, state.heap address = none → deleted.heap address = none) ∧
      Represents (deleted.unset v) (Function.update values v none) := by
  have owns : state.owns v = own := by rw [State.owns, lives, Option.join_some]
  cases own with
  | none =>
    refine ⟨state, rfl, rfl, fun _ none => (nomatch none), fun _ => id, ?_, fun other => ?_⟩
    · rw [owns_unset, ← owns, Function.update_eq_self]
      exact represents.owned
    · simp only [State.unset, Function.update_apply]
      split_ifs
      · trivial
      · exact represents.shows other
  | some address =>
    obtain ⟨block, stored⟩ := represents.owned.allocated owns
    refine ⟨{ state with heap := Function.update state.heap address none },
      by simp only [State.delete, stored], rfl, ?_, ?_, ?_, fun other => ?_⟩
    · rintro _ ⟨⟩
      exact Function.update_self ..
    · intro other free
      simp only [Function.update_apply]
      split_ifs
      · rfl
      · exact free
    · rw [owns_unset]
      exact represents.owned.release owns
    · simp only [State.unset, Function.update_apply]
      split_ifs with same
      · trivial
      · refine (represents.shows other).congr fun own isOwn => Function.update_of_ne ?_ _ _
        rintro rfl
        exact represents.owned.ne owns same (by rw [State.owns, isOwn, Option.join_some])

/-- Two variables swap what they hold. -/
theorem Represents.swap (represents : Represents state values) {v rhs : Var}
    {own source : Option Nat} {value : Option Value} (owns : state.owns v = own)
    (lives : state.vars rhs = some source) (shown : Shows state.heap (some own) value) :
    Represents ((state.set v source).set rhs own)
      (Function.update (Function.update values v (values rhs)) rhs value) := by
  refine ⟨?_, fun other => ?_⟩
  · have exchanged : ((state.set v source).set rhs own).owns =
        fun other => state.owns (Equiv.swap v rhs other) := by
      funext other
      rw [owns_set, owns_set]
      by_cases isRhs : other = rhs
      · rw [isRhs, Function.update_self, Equiv.swap_apply_right, owns]
      · rw [Function.update_of_ne isRhs]
        by_cases isV : other = v
        · rw [isV, Function.update_self, Equiv.swap_apply_left, State.owns, lives, Option.join_some]
        · rw [Function.update_of_ne isV, Equiv.swap_apply_of_ne_of_ne isV isRhs]
    rw [exchanged]
    exact represents.owned.exchange (Equiv.swap v rhs)
  · simp only [State.set, Function.update_apply]
    split_ifs
    · exact shown
    · rw [← lives]
      exact represents.shows rhs
    · exact represents.shows other

omit [DecidableEq Var] in
/-- A null `state_` is OK. -/
theorem Represents.value_of_null (represents : Represents state values) {v : Var}
    (null : state.vars v = some none) : values v = some none := by
  have shown := represents.shows v
  rw [null] at shown
  match isValue : values v with
  | some none => rfl
  | none => rw [isValue] at shown; exact shown.elim
  | some (some _) => rw [isValue] at shown; exact shown.elim

omit [DecidableEq Var] in
/-- A block shows a code and a message. -/
theorem Represents.value_of_block (represents : Represents state values) {v : Var} {address : Nat}
    (points : state.vars v = some (some address)) :
    ∃ code message, values v = some (some (code, message)) ∧
      state.heap address = some (layout code message) ∧ code ≠ .kOk ∧
        message.length + 5 < 2 ^ 32 := by
  have shown := represents.shows v
  rw [points] at shown
  match isValue : values v with
  | none => rw [isValue] at shown; exact shown.elim
  | some none => rw [isValue] at shown; exact shown.elim
  | some (some (code, message)) =>
    rw [isValue] at shown
    exact ⟨code, message, rfl, shown⟩

/-- A variable that does not live copies another one. -/
theorem Represents.copy (represents : Represents state values) {v rhs : Var} {address : Nat}
    {source : Option Nat} (dead : state.vars v = none) (lives : state.vars rhs = some source)
    (fresh : state.heap address = none) :
    ∃ copied state_, state.copy source address = some (copied, state_) ∧
      Represents (copied.set v state_) (Function.update values v (values rhs)) := by
  have nothing : state.owns v = none := by rw [State.owns, dead, Option.join_none]
  cases source with
  | none =>
    rw [represents.value_of_null lives]
    exact ⟨state, none, rfl, represents.setNull nothing⟩
  | some from_ =>
    obtain ⟨code, message, isValue, stored, notOk, fits⟩ := represents.value_of_block lives
    obtain ⟨allocated, allocates, after⟩ := represents.setBlock fresh nothing notOk fits
    refine ⟨allocated, some address, ?_, isValue ▸ after⟩
    simp only [State.copy, stored, copyState_layout code fits, allocates, Option.bind_eq_bind,
      Option.bind_some]

/-- What is copied does not depend on the variable that is written. -/
theorem copy_unset (state : State Var) (v : Var) (source : Option Nat) (address : Nat) :
    (state.unset v).copy source address =
      (state.copy source address).map fun (copied, state_) => (copied.unset v, state_) := by
  cases source with
  | none => rfl
  | some from_ =>
    simp only [State.copy, State.unset, Option.bind_eq_bind]
    cases state.heap from_ with
    | none => rfl
    | some block =>
      rw [Option.bind_some, Option.bind_some]
      cases copyState block with
      | none => rfl
      | some copied =>
        simp only [State.allocate, Option.bind_some]
        cases state.heap address <;> rfl

/-- To set a variable hides whether it lived. -/
theorem set_unset (state : State Var) (v : Var) (state_ : Option Nat) :
    (state.unset v).set v state_ = state.set v state_ := by
  simp only [State.set, State.unset, Function.update_idem]

/-- A step of a proper program is defined and does what it means. -/
theorem Represents.step (represents : Represents state values) {op : Op Var}
    (proper : Proper state op) :
    ∃ next, StatusMemory.step state op = some next ∧ Represents next (meaning values op) := by
  cases op with
  | construct v =>
    have nothing : state.owns v = none := by rw [State.owns, proper, Option.join_none]
    exact ⟨_, by simp only [StatusMemory.step, show state.vars v = none from proper],
      represents.setNull nothing⟩
  | constructError v code msg msg2 address =>
    obtain ⟨dead, notOk, fits, fresh⟩ := proper
    have nothing : state.owns v = none := by rw [State.owns, dead, Option.join_none]
    obtain ⟨allocated, allocates, after⟩ := represents.setBlock fresh nothing notOk fits
    refine ⟨_, ?_, after⟩
    simp only [StatusMemory.step, dead, newState_eq code msg msg2 fits, allocates,
      Option.bind_eq_bind, Option.bind_some]
  | copyConstruct v rhs address =>
    obtain ⟨dead, lives, fresh⟩ := proper
    obtain ⟨source, isSource⟩ := Option.isSome_iff_exists.mp lives
    obtain ⟨copied, state_, copies, after⟩ := represents.copy dead isSource fresh
    refine ⟨_, ?_, after⟩
    simp only [StatusMemory.step, dead, isSource, copies, Option.bind_eq_bind, Option.bind_some]
  | copyAssign v rhs address =>
    obtain ⟨lives, sourceLives, fresh⟩ := proper
    obtain ⟨own, isOwn⟩ := Option.isSome_iff_exists.mp lives
    obtain ⟨source, isSource⟩ := Option.isSome_iff_exists.mp sourceLives
    by_cases same : own = source
    · subst same
      have sameValue : values rhs = values v := by
        cases own with
        | none => rw [represents.value_of_null isOwn, represents.value_of_null isSource]
        | some block =>
          have sameVar : v = rhs := represents.owned.unique
            (show state.owns v = some block by rw [State.owns, isOwn, Option.join_some])
            (show state.owns rhs = some block by rw [State.owns, isSource, Option.join_some])
          rw [sameVar]
      refine ⟨state, ?_, ?_⟩
      · simp only [StatusMemory.step, isOwn, isSource, Option.bind_eq_bind, Option.bind_some,
          ne_eq, not_true, if_false]
      · rw [meaning, sameValue, Function.update_eq_self]
        exact represents
    · obtain ⟨deleted, deletes, sameVars, released, stillFree, after⟩ := represents.delete isOwn
      have different : rhs ≠ v := by
        rintro rfl
        exact same (Option.some.inj (isOwn.symm.trans isSource))
      have dead : (deleted.unset v).vars v = none := Function.update_self ..
      have lives' : (deleted.unset v).vars rhs = some source := by
        simp only [State.unset, Function.update_of_ne different, sameVars, isSource]
      have free : deleted.heap address = none := by
        rcases fresh with before | isOwnBlock
        · exact stillFree address before
        · exact released address (Option.some.inj (isOwn.symm.trans isOwnBlock))
      obtain ⟨unset, state_, copies, copied⟩ := after.copy dead lives' free
      rw [copy_unset] at copies
      obtain ⟨⟨copy, copyState_⟩, copies, pair⟩ := Option.map_eq_some_iff.mp copies
      cases pair
      rw [set_unset, Function.update_of_ne different, Function.update_idem] at copied
      refine ⟨_, ?_, copied⟩
      simp only [StatusMemory.step, isOwn, isSource, Option.bind_eq_bind, Option.bind_some,
        ne_eq, same, not_false_eq_true, if_true, deletes, copies]
  | moveConstruct v rhs =>
    obtain ⟨dead, lives⟩ := proper
    obtain ⟨source, isSource⟩ := Option.isSome_iff_exists.mp lives
    have nothing : state.owns v = none := by rw [State.owns, dead, Option.join_none]
    refine ⟨_, ?_, represents.swap nothing isSource trivial⟩
    simp only [StatusMemory.step, dead, isSource, Option.bind_eq_bind, Option.bind_some]
  | moveAssign v rhs =>
    obtain ⟨lives, sourceLives⟩ := proper
    obtain ⟨own, isOwn⟩ := Option.isSome_iff_exists.mp lives
    obtain ⟨source, isSource⟩ := Option.isSome_iff_exists.mp sourceLives
    have owns : state.owns v = own := by rw [State.owns, isOwn, Option.join_some]
    refine ⟨_, ?_, represents.swap owns isSource (isOwn ▸ represents.shows v)⟩
    simp only [StatusMemory.step, isOwn, isSource, Option.bind_eq_bind, Option.bind_some]
  | destroy v =>
    obtain ⟨own, isOwn⟩ := Option.isSome_iff_exists.mp proper
    obtain ⟨deleted, deletes, -, -, -, after⟩ := represents.delete isOwn
    refine ⟨_, ?_, after⟩
    simp only [StatusMemory.step, isOwn, deletes, Option.bind_eq_bind, Option.bind_some]
    rfl

/-- `Status::ToString` of a value. -/
def text : Value → Bytes
  | none => utf8 "OK"
  | some (code, message) => utf8 (typeText (codeByte code)) ++ message

omit [DecidableEq Var] in
/-- What the functions of a `Status` return. -/
theorem Represents.reads (represents : Represents state values) {v : Var} {value : Value}
    (isValue : values v = some value) :
    state.ok v = some value.isNone ∧ state.toString v = some (text value) ∧
      state.code v = some (codeByte ((value.map Prod.fst).getD .kOk)) := by
  have shown := represents.shows v
  rw [isValue] at shown
  match standing : state.vars v, value with
  | none, _ => rw [standing] at shown; exact shown.elim
  | some none, some _ => rw [standing] at shown; exact shown.elim
  | some (some _), none => rw [standing] at shown; exact shown.elim
  | some none, none => simp [State.ok, State.toString, State.code, standing, text]
  | some (some address), some (code, message) =>
    rw [standing] at shown
    obtain ⟨stored, -, fits⟩ := shown
    have isCode : state.code v = some (codeByte code) := by
      simp [State.code, standing, stored, read_layout_code]
    refine ⟨by simp [State.ok, standing], ?_, isCode⟩
    simp [State.toString, standing, isCode, stored, read_layout_size, decode_size fits,
      read_layout_message, text]

/-- Whatever a proper program does with its `Status` variables and whatever addresses the
allocator returns: no memory is used that is not allocated, written or inside its block, each
variable is what its operations mean, and the allocated blocks are owned by one variable
each, so that nothing is left when no variable lives. -/
theorem statuses_are_values (ops : List (Op Var))
    (proper : Machine.Meets step Proper State.initial ops) :
    ∃ final, Machine.run step State.initial ops = some final ∧
      (∀ v, final.vars v = none ↔ ops.foldl meaning (fun _ => none) v = none) ∧
      (∀ v value, ops.foldl meaning (fun _ => none) v = some value →
        final.ok v = some value.isNone ∧ final.toString v = some (text value) ∧
          final.code v = some (codeByte ((value.map Prod.fst).getD .kOk))) ∧
      Ownership.Owned final.owns final.heap ∧
      ((∀ v, ops.foldl meaning (fun _ => none) v = none) →
        ∀ address, final.heap address = none) := by
  have simulates : ∀ (state : State Var) (values : Var → Option Value) (op : Op Var),
      Represents state values → Proper state op →
        ∃ next, step state op = some next ∧ Represents next (meaning values op) :=
    fun state values op represents proper => represents.step proper
  have start : Represents (State.initial : State Var) fun _ => none :=
    ⟨Ownership.Owned.empty, fun _ => trivial⟩
  obtain ⟨final, ran, represents⟩ := Machine.run_simulates Represents simulates start proper
  have sameLife : ∀ v, final.vars v = none ↔ ops.foldl meaning (fun _ => none) v = none := by
    intro v
    have shown := represents.shows v
    constructor
    · intro dead
      rw [dead] at shown
      match isValue : ops.foldl meaning (fun _ => none) v with
      | none => rfl
      | some _ => rw [isValue] at shown; exact shown.elim
    · intro dead
      rw [dead] at shown
      match standing : final.vars v with
      | none => rfl
      | some none => rw [standing] at shown; exact shown.elim
      | some (some _) => rw [standing] at shown; exact shown.elim
  refine ⟨final, ran, sameLife, fun v value isValue => represents.reads isValue, represents.owned,
    fun nobody address => represents.owned.eq_none (fun v => ?_) address⟩
  rw [State.owns, (sameLife v).mpr (nobody v), Option.join_none]

/-- An error is copied to one variable, which is then moved over another one. -/
theorem statuses_are_values_copy :
    ∃ final : State Nat, Machine.run step State.initial
        [.constructError 0 .kNotFound [97] [98] 7, .copyConstruct 1 0 8, .construct 2,
          .moveAssign 2 1, .copyAssign 0 1 9] = some final ∧
      final.toString 2 = some (utf8 "NotFound: a: b") ∧ final.ok 0 = some true := by
  obtain ⟨final, ran, -, reads, -⟩ := statuses_are_values
    [.constructError 0 .kNotFound [97] [98] 7, .copyConstruct 1 0 8, .construct 2,
      .moveAssign 2 1, .copyAssign 0 1 9]
    (Machine.meets_of_step rfl ⟨rfl, by decide, by decide, rfl⟩ <|
      Machine.meets_of_step rfl ⟨rfl, rfl, rfl⟩ <| Machine.meets_of_step rfl (by exact rfl) <|
      Machine.meets_of_step rfl ⟨rfl, rfl⟩ <|
      Machine.meets_of_step rfl ⟨rfl, rfl, Or.inl rfl⟩ trivial)
  refine ⟨final, ran, ?_, (reads 0 none rfl).1⟩
  rw [(reads 2 (some (.kNotFound, [97, 58, 32, 98])) rfl).2.1]
  decide

end LevelDbXy.StatusMemory
