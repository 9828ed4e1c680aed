import CodeListing.Text.Numeral

/-! # Operations

An operation has a number, a name, a way in which its argument is read (`OperandKind`) and a number
of words behind it that hold cached data instead of instructions.  `Opcode.table` lists the
operations of the machine in ascending order of their numbers; a number that is not in the table
belongs to an operation named after it.  Operations from `argumentFrom` on have an argument. -/

namespace CodeListing

/-- What the argument of an operation refers to. -/
inductive OperandKind where
  | plain
  | constant
  | name
  | globalName
  | forward
  | backward
  | slot
  | comparison
  | arithmetic
  | conversion
  | closureParts
  | extension
deriving DecidableEq, Repr

structure Opcode where
  number : Nat
  name : String
  operand : OperandKind
  caches : Nat
deriving DecidableEq, Repr

namespace Opcode

/-- The number of the first operation with an argument. -/
def argumentFrom : Nat := 90

/-- The operations of the machine. -/
def table : List Opcode := [
  ⟨0, "CACHE", .plain, 0⟩,
  ⟨1, "POP_TOP", .plain, 0⟩,
  ⟨2, "PUSH_NULL", .plain, 0⟩,
  ⟨9, "NOP", .plain, 0⟩,
  ⟨10, "UNARY_POSITIVE", .plain, 0⟩,
  ⟨11, "UNARY_NEGATIVE", .plain, 0⟩,
  ⟨12, "UNARY_NOT", .plain, 0⟩,
  ⟨15, "UNARY_INVERT", .plain, 0⟩,
  ⟨25, "BINARY_SUBSCR", .plain, 4⟩,
  ⟨30, "GET_LEN", .plain, 0⟩,
  ⟨31, "MATCH_MAPPING", .plain, 0⟩,
  ⟨32, "MATCH_SEQUENCE", .plain, 0⟩,
  ⟨33, "MATCH_KEYS", .plain, 0⟩,
  ⟨35, "PUSH_EXC_INFO", .plain, 0⟩,
  ⟨36, "CHECK_EXC_MATCH", .plain, 0⟩,
  ⟨37, "CHECK_EG_MATCH", .plain, 0⟩,
  ⟨49, "WITH_EXCEPT_START", .plain, 0⟩,
  ⟨50, "GET_AITER", .plain, 0⟩,
  ⟨51, "GET_ANEXT", .plain, 0⟩,
  ⟨52, "BEFORE_ASYNC_WITH", .plain, 0⟩,
  ⟨53, "BEFORE_WITH", .plain, 0⟩,
  ⟨54, "END_ASYNC_FOR", .plain, 0⟩,
  ⟨60, "STORE_SUBSCR", .plain, 1⟩,
  ⟨61, "DELETE_SUBSCR", .plain, 0⟩,
  ⟨68, "GET_ITER", .plain, 0⟩,
  ⟨69, "GET_YIELD_FROM_ITER", .plain, 0⟩,
  ⟨70, "PRINT_EXPR", .plain, 0⟩,
  ⟨71, "LOAD_BUILD_CLASS", .plain, 0⟩,
  ⟨74, "LOAD_ASSERTION_ERROR", .plain, 0⟩,
  ⟨75, "RETURN_GENERATOR", .plain, 0⟩,
  ⟨82, "LIST_TO_TUPLE", .plain, 0⟩,
  ⟨83, "RETURN_VALUE", .plain, 0⟩,
  ⟨84, "IMPORT_STAR", .plain, 0⟩,
  ⟨85, "SETUP_ANNOTATIONS", .plain, 0⟩,
  ⟨86, "YIELD_VALUE", .plain, 0⟩,
  ⟨87, "ASYNC_GEN_WRAP", .plain, 0⟩,
  ⟨88, "PREP_RERAISE_STAR", .plain, 0⟩,
  ⟨89, "POP_EXCEPT", .plain, 0⟩,
  ⟨90, "STORE_NAME", .name, 0⟩,
  ⟨91, "DELETE_NAME", .name, 0⟩,
  ⟨92, "UNPACK_SEQUENCE", .plain, 1⟩,
  ⟨93, "FOR_ITER", .forward, 0⟩,
  ⟨94, "UNPACK_EX", .plain, 0⟩,
  ⟨95, "STORE_ATTR", .name, 4⟩,
  ⟨96, "DELETE_ATTR", .name, 0⟩,
  ⟨97, "STORE_GLOBAL", .name, 0⟩,
  ⟨98, "DELETE_GLOBAL", .name, 0⟩,
  ⟨99, "SWAP", .plain, 0⟩,
  ⟨100, "LOAD_CONST", .constant, 0⟩,
  ⟨101, "LOAD_NAME", .name, 0⟩,
  ⟨102, "BUILD_TUPLE", .plain, 0⟩,
  ⟨103, "BUILD_LIST", .plain, 0⟩,
  ⟨104, "BUILD_SET", .plain, 0⟩,
  ⟨105, "BUILD_MAP", .plain, 0⟩,
  ⟨106, "LOAD_ATTR", .name, 4⟩,
  ⟨107, "COMPARE_OP", .comparison, 2⟩,
  ⟨108, "IMPORT_NAME", .name, 0⟩,
  ⟨109, "IMPORT_FROM", .name, 0⟩,
  ⟨110, "JUMP_FORWARD", .forward, 0⟩,
  ⟨111, "JUMP_IF_FALSE_OR_POP", .forward, 0⟩,
  ⟨112, "JUMP_IF_TRUE_OR_POP", .forward, 0⟩,
  ⟨114, "POP_JUMP_FORWARD_IF_FALSE", .forward, 0⟩,
  ⟨115, "POP_JUMP_FORWARD_IF_TRUE", .forward, 0⟩,
  ⟨116, "LOAD_GLOBAL", .globalName, 5⟩,
  ⟨117, "IS_OP", .plain, 0⟩,
  ⟨118, "CONTAINS_OP", .plain, 0⟩,
  ⟨119, "RERAISE", .plain, 0⟩,
  ⟨120, "COPY", .plain, 0⟩,
  ⟨122, "BINARY_OP", .arithmetic, 1⟩,
  ⟨123, "SEND", .forward, 0⟩,
  ⟨124, "LOAD_FAST", .slot, 0⟩,
  ⟨125, "STORE_FAST", .slot, 0⟩,
  ⟨126, "DELETE_FAST", .slot, 0⟩,
  ⟨128, "POP_JUMP_FORWARD_IF_NOT_NONE", .forward, 0⟩,
  ⟨129, "POP_JUMP_FORWARD_IF_NONE", .forward, 0⟩,
  ⟨130, "RAISE_VARARGS", .plain, 0⟩,
  ⟨131, "GET_AWAITABLE", .plain, 0⟩,
  ⟨132, "MAKE_FUNCTION", .closureParts, 0⟩,
  ⟨133, "BUILD_SLICE", .plain, 0⟩,
  ⟨134, "JUMP_BACKWARD_NO_INTERRUPT", .backward, 0⟩,
  ⟨135, "MAKE_CELL", .slot, 0⟩,
  ⟨136, "LOAD_CLOSURE", .slot, 0⟩,
  ⟨137, "LOAD_DEREF", .slot, 0⟩,
  ⟨138, "STORE_DEREF", .slot, 0⟩,
  ⟨139, "DELETE_DEREF", .slot, 0⟩,
  ⟨140, "JUMP_BACKWARD", .backward, 0⟩,
  ⟨142, "CALL_FUNCTION_EX", .plain, 0⟩,
  ⟨144, "EXTENDED_ARG", .extension, 0⟩,
  ⟨145, "LIST_APPEND", .plain, 0⟩,
  ⟨146, "SET_ADD", .plain, 0⟩,
  ⟨147, "MAP_ADD", .plain, 0⟩,
  ⟨148, "LOAD_CLASSDEREF", .slot, 0⟩,
  ⟨149, "COPY_FREE_VARS", .plain, 0⟩,
  ⟨151, "RESUME", .plain, 0⟩,
  ⟨152, "MATCH_CLASS", .plain, 0⟩,
  ⟨155, "FORMAT_VALUE", .conversion, 0⟩,
  ⟨156, "BUILD_CONST_KEY_MAP", .plain, 0⟩,
  ⟨157, "BUILD_STRING", .plain, 0⟩,
  ⟨160, "LOAD_METHOD", .name, 10⟩,
  ⟨162, "LIST_EXTEND", .plain, 0⟩,
  ⟨163, "SET_UPDATE", .plain, 0⟩,
  ⟨164, "DICT_MERGE", .plain, 0⟩,
  ⟨165, "DICT_UPDATE", .plain, 0⟩,
  ⟨166, "PRECALL", .plain, 1⟩,
  ⟨171, "CALL", .plain, 4⟩,
  ⟨172, "KW_NAMES", .plain, 0⟩,
  ⟨173, "POP_JUMP_BACKWARD_IF_NOT_NONE", .backward, 0⟩,
  ⟨174, "POP_JUMP_BACKWARD_IF_NONE", .backward, 0⟩,
  ⟨175, "POP_JUMP_BACKWARD_IF_FALSE", .backward, 0⟩,
  ⟨176, "POP_JUMP_BACKWARD_IF_TRUE", .backward, 0⟩]

/-- The operation with a number. -/
def ofNumber (n : Nat) : Opcode :=
  (table.find? fun o => o.number == n).getD
    ⟨n, String.ofList ('<' :: (Numeral.natural n ++ ['>'])), .plain, 0⟩

def hasArgument (o : Opcode) : Bool := argumentFrom ≤ o.number

end Opcode
end CodeListing
