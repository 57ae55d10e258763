import Dalvik.Opcode.Family

/-!
# The opcode table

One row for each opcode: its byte, mnemonic, format, family, operand kind, the
result kind of conversions, and whether it may throw.  Bytes without a row are
unknown opcodes.
-/

namespace Dalvik

inductive Opcode where
  | nop | move | moveFrom16 | move16 | moveWide | moveWideFrom16 | moveWide16 | moveObject
  | moveObjectFrom16 | moveObject16 | moveResult | moveResultWide | moveResultObject
  | moveException | returnVoid | returnNarrow | returnWide | returnObject | const4 | const16
  | const | constHigh16 | constWide16 | constWide32 | constWide | constWideHigh16 | constString
  | constStringJumbo | constClass | monitorEnter | monitorExit | checkCast | instanceOf
  | arrayLength | newInstance | newArray | filledNewArray | filledNewArrayRange | fillArrayData
  | throw | goto | goto16 | goto32 | packedSwitch | sparseSwitch | cmplFloat | cmpgFloat
  | cmplDouble | cmpgDouble | cmpLong | ifEq | ifNe | ifLt | ifGe | ifGt | ifLe | ifEqz | ifNez
  | ifLtz | ifGez | ifGtz | ifLez | aget | agetWide | agetObject | agetBoolean | agetByte
  | agetChar | agetShort | aput | aputWide | aputObject | aputBoolean | aputByte | aputChar
  | aputShort | iget | igetWide | igetObject | igetBoolean | igetByte | igetChar | igetShort
  | iput | iputWide | iputObject | iputBoolean | iputByte | iputChar | iputShort | sget
  | sgetWide | sgetObject | sgetBoolean | sgetByte | sgetChar | sgetShort | sput | sputWide
  | sputObject | sputBoolean | sputByte | sputChar | sputShort | invokeVirtual | invokeSuper
  | invokeDirect | invokeStatic | invokeInterface | invokeVirtualRange | invokeSuperRange
  | invokeDirectRange | invokeStaticRange | invokeInterfaceRange | negInt | notInt | negLong
  | notLong | negFloat | negDouble | intToLong | intToFloat | intToDouble | longToInt
  | longToFloat | longToDouble | floatToInt | floatToLong | floatToDouble | doubleToInt
  | doubleToLong | doubleToFloat | intToByte | intToChar | intToShort | addInt | subInt | mulInt
  | divInt | remInt | andInt | orInt | xorInt | shlInt | shrInt | ushrInt | addLong | subLong
  | mulLong | divLong | remLong | andLong | orLong | xorLong | shlLong | shrLong | ushrLong
  | addFloat | subFloat | mulFloat | divFloat | remFloat | addDouble | subDouble | mulDouble
  | divDouble | remDouble | addInt2addr | subInt2addr | mulInt2addr | divInt2addr | remInt2addr
  | andInt2addr | orInt2addr | xorInt2addr | shlInt2addr | shrInt2addr | ushrInt2addr
  | addLong2addr | subLong2addr | mulLong2addr | divLong2addr | remLong2addr | andLong2addr
  | orLong2addr | xorLong2addr | shlLong2addr | shrLong2addr | ushrLong2addr | addFloat2addr
  | subFloat2addr | mulFloat2addr | divFloat2addr | remFloat2addr | addDouble2addr
  | subDouble2addr | mulDouble2addr | divDouble2addr | remDouble2addr | addIntLit16 | rsubInt
  | mulIntLit16 | divIntLit16 | remIntLit16 | andIntLit16 | orIntLit16 | xorIntLit16
  | addIntLit8 | rsubIntLit8 | mulIntLit8 | divIntLit8 | remIntLit8 | andIntLit8 | orIntLit8
  | xorIntLit8 | shlIntLit8 | shrIntLit8 | ushrIntLit8
  deriving DecidableEq, Repr

structure OpcodeRow where
  value : UInt8
  mnemonic : String
  format : Format
  family : Family
  kind : Option OperandKind
  targetKind : Option OperandKind
  canThrow : Bool

namespace Opcode

def all : List Opcode :=
  [.nop, .move, .moveFrom16, .move16, .moveWide, .moveWideFrom16, .moveWide16, .moveObject,
    .moveObjectFrom16, .moveObject16, .moveResult, .moveResultWide, .moveResultObject,
    .moveException, .returnVoid, .returnNarrow, .returnWide, .returnObject, .const4, .const16,
    .const, .constHigh16, .constWide16, .constWide32, .constWide, .constWideHigh16, .constString,
    .constStringJumbo, .constClass, .monitorEnter, .monitorExit, .checkCast, .instanceOf,
    .arrayLength, .newInstance, .newArray, .filledNewArray, .filledNewArrayRange, .fillArrayData,
    .throw, .goto, .goto16, .goto32, .packedSwitch, .sparseSwitch, .cmplFloat, .cmpgFloat,
    .cmplDouble, .cmpgDouble, .cmpLong, .ifEq, .ifNe, .ifLt, .ifGe, .ifGt, .ifLe, .ifEqz, .ifNez,
    .ifLtz, .ifGez, .ifGtz, .ifLez, .aget, .agetWide, .agetObject, .agetBoolean, .agetByte,
    .agetChar, .agetShort, .aput, .aputWide, .aputObject, .aputBoolean, .aputByte, .aputChar,
    .aputShort, .iget, .igetWide, .igetObject, .igetBoolean, .igetByte, .igetChar, .igetShort,
    .iput, .iputWide, .iputObject, .iputBoolean, .iputByte, .iputChar, .iputShort, .sget,
    .sgetWide, .sgetObject, .sgetBoolean, .sgetByte, .sgetChar, .sgetShort, .sput, .sputWide,
    .sputObject, .sputBoolean, .sputByte, .sputChar, .sputShort, .invokeVirtual, .invokeSuper,
    .invokeDirect, .invokeStatic, .invokeInterface, .invokeVirtualRange, .invokeSuperRange,
    .invokeDirectRange, .invokeStaticRange, .invokeInterfaceRange, .negInt, .notInt, .negLong,
    .notLong, .negFloat, .negDouble, .intToLong, .intToFloat, .intToDouble, .longToInt,
    .longToFloat, .longToDouble, .floatToInt, .floatToLong, .floatToDouble, .doubleToInt,
    .doubleToLong, .doubleToFloat, .intToByte, .intToChar, .intToShort, .addInt, .subInt,
    .mulInt, .divInt, .remInt, .andInt, .orInt, .xorInt, .shlInt, .shrInt, .ushrInt, .addLong,
    .subLong, .mulLong, .divLong, .remLong, .andLong, .orLong, .xorLong, .shlLong, .shrLong,
    .ushrLong, .addFloat, .subFloat, .mulFloat, .divFloat, .remFloat, .addDouble, .subDouble,
    .mulDouble, .divDouble, .remDouble, .addInt2addr, .subInt2addr, .mulInt2addr, .divInt2addr,
    .remInt2addr, .andInt2addr, .orInt2addr, .xorInt2addr, .shlInt2addr, .shrInt2addr,
    .ushrInt2addr, .addLong2addr, .subLong2addr, .mulLong2addr, .divLong2addr, .remLong2addr,
    .andLong2addr, .orLong2addr, .xorLong2addr, .shlLong2addr, .shrLong2addr, .ushrLong2addr,
    .addFloat2addr, .subFloat2addr, .mulFloat2addr, .divFloat2addr, .remFloat2addr,
    .addDouble2addr, .subDouble2addr, .mulDouble2addr, .divDouble2addr, .remDouble2addr,
    .addIntLit16, .rsubInt, .mulIntLit16, .divIntLit16, .remIntLit16, .andIntLit16, .orIntLit16,
    .xorIntLit16, .addIntLit8, .rsubIntLit8, .mulIntLit8, .divIntLit8, .remIntLit8, .andIntLit8,
    .orIntLit8, .xorIntLit8, .shlIntLit8, .shrIntLit8, .ushrIntLit8]

def row : Opcode → OpcodeRow
  | .nop => ⟨0x00, "nop", .f10x, .nop, none, none, false⟩
  | .move => ⟨0x01, "move", .f12x, .move, some .narrow, none, false⟩
  | .moveFrom16 => ⟨0x02, "move/from16", .f22x, .move, some .narrow, none, false⟩
  | .move16 => ⟨0x03, "move/16", .f32x, .move, some .narrow, none, false⟩
  | .moveWide => ⟨0x04, "move-wide", .f12x, .move, some .wide, none, false⟩
  | .moveWideFrom16 => ⟨0x05, "move-wide/from16", .f22x, .move, some .wide, none, false⟩
  | .moveWide16 => ⟨0x06, "move-wide/16", .f32x, .move, some .wide, none, false⟩
  | .moveObject => ⟨0x07, "move-object", .f12x, .move, some .object, none, false⟩
  | .moveObjectFrom16 => ⟨0x08, "move-object/from16", .f22x, .move, some .object, none, false⟩
  | .moveObject16 => ⟨0x09, "move-object/16", .f32x, .move, some .object, none, false⟩
  | .moveResult => ⟨0x0a, "move-result", .f11x, .moveResult, some .narrow, none, false⟩
  | .moveResultWide => ⟨0x0b, "move-result-wide", .f11x, .moveResult, some .wide, none, false⟩
  | .moveResultObject => ⟨0x0c, "move-result-object", .f11x, .moveResult, some .object, none, false⟩
  | .moveException => ⟨0x0d, "move-exception", .f11x, .moveException, some .object, none, false⟩
  | .returnVoid => ⟨0x0e, "return-void", .f10x, .returnVoid, none, none, false⟩
  | .returnNarrow => ⟨0x0f, "return", .f11x, .returnValue, some .narrow, none, false⟩
  | .returnWide => ⟨0x10, "return-wide", .f11x, .returnValue, some .wide, none, false⟩
  | .returnObject => ⟨0x11, "return-object", .f11x, .returnValue, some .object, none, false⟩
  | .const4 => ⟨0x12, "const/4", .f11n, .const, some .narrow, none, false⟩
  | .const16 => ⟨0x13, "const/16", .f21s, .const, some .narrow, none, false⟩
  | .const => ⟨0x14, "const", .f31i, .const, some .narrow, none, false⟩
  | .constHigh16 => ⟨0x15, "const/high16", .f21h, .const, some .narrow, none, false⟩
  | .constWide16 => ⟨0x16, "const-wide/16", .f21s, .const, some .wide, none, false⟩
  | .constWide32 => ⟨0x17, "const-wide/32", .f31i, .const, some .wide, none, false⟩
  | .constWide => ⟨0x18, "const-wide", .f51l, .const, some .wide, none, false⟩
  | .constWideHigh16 => ⟨0x19, "const-wide/high16", .f21h, .const, some .wide, none, false⟩
  | .constString => ⟨0x1a, "const-string", .f21c, .constString, some .object, none, false⟩
  | .constStringJumbo => ⟨0x1b, "const-string/jumbo", .f31c, .constString, some .object, none, false⟩
  | .constClass => ⟨0x1c, "const-class", .f21c, .constClass, some .object, none, true⟩
  | .monitorEnter => ⟨0x1d, "monitor-enter", .f11x, .monitorEnter, some .object, none, true⟩
  | .monitorExit => ⟨0x1e, "monitor-exit", .f11x, .monitorExit, some .object, none, true⟩
  | .checkCast => ⟨0x1f, "check-cast", .f21c, .checkCast, some .object, none, true⟩
  | .instanceOf => ⟨0x20, "instance-of", .f22c, .instanceOf, some .object, none, true⟩
  | .arrayLength => ⟨0x21, "array-length", .f12x, .arrayLength, some .object, none, true⟩
  | .newInstance => ⟨0x22, "new-instance", .f21c, .newInstance, some .object, none, true⟩
  | .newArray => ⟨0x23, "new-array", .f22c, .newArray, some .object, none, true⟩
  | .filledNewArray => ⟨0x24, "filled-new-array", .f35c, .filledNewArray, some .object, none, true⟩
  | .filledNewArrayRange => ⟨0x25, "filled-new-array/range", .f3rc, .filledNewArray, some .object, none, true⟩
  | .fillArrayData => ⟨0x26, "fill-array-data", .f31t, .fillArrayData, some .object, none, true⟩
  | .throw => ⟨0x27, "throw", .f11x, .throw, some .object, none, true⟩
  | .goto => ⟨0x28, "goto", .f10t, .goto, none, none, false⟩
  | .goto16 => ⟨0x29, "goto/16", .f20t, .goto, none, none, false⟩
  | .goto32 => ⟨0x2a, "goto/32", .f30t, .goto, none, none, false⟩
  | .packedSwitch => ⟨0x2b, "packed-switch", .f31t, .switch, some .int, none, false⟩
  | .sparseSwitch => ⟨0x2c, "sparse-switch", .f31t, .switch, some .int, none, false⟩
  | .cmplFloat => ⟨0x2d, "cmpl-float", .f23x, .cmp, some .float, none, false⟩
  | .cmpgFloat => ⟨0x2e, "cmpg-float", .f23x, .cmp, some .float, none, false⟩
  | .cmplDouble => ⟨0x2f, "cmpl-double", .f23x, .cmp, some .double, none, false⟩
  | .cmpgDouble => ⟨0x30, "cmpg-double", .f23x, .cmp, some .double, none, false⟩
  | .cmpLong => ⟨0x31, "cmp-long", .f23x, .cmp, some .long, none, false⟩
  | .ifEq => ⟨0x32, "if-eq", .f22t, .branch, none, none, false⟩
  | .ifNe => ⟨0x33, "if-ne", .f22t, .branch, none, none, false⟩
  | .ifLt => ⟨0x34, "if-lt", .f22t, .branch, none, none, false⟩
  | .ifGe => ⟨0x35, "if-ge", .f22t, .branch, none, none, false⟩
  | .ifGt => ⟨0x36, "if-gt", .f22t, .branch, none, none, false⟩
  | .ifLe => ⟨0x37, "if-le", .f22t, .branch, none, none, false⟩
  | .ifEqz => ⟨0x38, "if-eqz", .f21t, .branchZero, none, none, false⟩
  | .ifNez => ⟨0x39, "if-nez", .f21t, .branchZero, none, none, false⟩
  | .ifLtz => ⟨0x3a, "if-ltz", .f21t, .branchZero, none, none, false⟩
  | .ifGez => ⟨0x3b, "if-gez", .f21t, .branchZero, none, none, false⟩
  | .ifGtz => ⟨0x3c, "if-gtz", .f21t, .branchZero, none, none, false⟩
  | .ifLez => ⟨0x3d, "if-lez", .f21t, .branchZero, none, none, false⟩
  | .aget => ⟨0x44, "aget", .f23x, .aget, some .narrow, none, true⟩
  | .agetWide => ⟨0x45, "aget-wide", .f23x, .aget, some .wide, none, true⟩
  | .agetObject => ⟨0x46, "aget-object", .f23x, .aget, some .object, none, true⟩
  | .agetBoolean => ⟨0x47, "aget-boolean", .f23x, .aget, some .boolean, none, true⟩
  | .agetByte => ⟨0x48, "aget-byte", .f23x, .aget, some .byte, none, true⟩
  | .agetChar => ⟨0x49, "aget-char", .f23x, .aget, some .char, none, true⟩
  | .agetShort => ⟨0x4a, "aget-short", .f23x, .aget, some .short, none, true⟩
  | .aput => ⟨0x4b, "aput", .f23x, .aput, some .narrow, none, true⟩
  | .aputWide => ⟨0x4c, "aput-wide", .f23x, .aput, some .wide, none, true⟩
  | .aputObject => ⟨0x4d, "aput-object", .f23x, .aput, some .object, none, true⟩
  | .aputBoolean => ⟨0x4e, "aput-boolean", .f23x, .aput, some .boolean, none, true⟩
  | .aputByte => ⟨0x4f, "aput-byte", .f23x, .aput, some .byte, none, true⟩
  | .aputChar => ⟨0x50, "aput-char", .f23x, .aput, some .char, none, true⟩
  | .aputShort => ⟨0x51, "aput-short", .f23x, .aput, some .short, none, true⟩
  | .iget => ⟨0x52, "iget", .f22c, .iget, some .narrow, none, true⟩
  | .igetWide => ⟨0x53, "iget-wide", .f22c, .iget, some .wide, none, true⟩
  | .igetObject => ⟨0x54, "iget-object", .f22c, .iget, some .object, none, true⟩
  | .igetBoolean => ⟨0x55, "iget-boolean", .f22c, .iget, some .boolean, none, true⟩
  | .igetByte => ⟨0x56, "iget-byte", .f22c, .iget, some .byte, none, true⟩
  | .igetChar => ⟨0x57, "iget-char", .f22c, .iget, some .char, none, true⟩
  | .igetShort => ⟨0x58, "iget-short", .f22c, .iget, some .short, none, true⟩
  | .iput => ⟨0x59, "iput", .f22c, .iput, some .narrow, none, true⟩
  | .iputWide => ⟨0x5a, "iput-wide", .f22c, .iput, some .wide, none, true⟩
  | .iputObject => ⟨0x5b, "iput-object", .f22c, .iput, some .object, none, true⟩
  | .iputBoolean => ⟨0x5c, "iput-boolean", .f22c, .iput, some .boolean, none, true⟩
  | .iputByte => ⟨0x5d, "iput-byte", .f22c, .iput, some .byte, none, true⟩
  | .iputChar => ⟨0x5e, "iput-char", .f22c, .iput, some .char, none, true⟩
  | .iputShort => ⟨0x5f, "iput-short", .f22c, .iput, some .short, none, true⟩
  | .sget => ⟨0x60, "sget", .f21c, .sget, some .narrow, none, true⟩
  | .sgetWide => ⟨0x61, "sget-wide", .f21c, .sget, some .wide, none, true⟩
  | .sgetObject => ⟨0x62, "sget-object", .f21c, .sget, some .object, none, true⟩
  | .sgetBoolean => ⟨0x63, "sget-boolean", .f21c, .sget, some .boolean, none, true⟩
  | .sgetByte => ⟨0x64, "sget-byte", .f21c, .sget, some .byte, none, true⟩
  | .sgetChar => ⟨0x65, "sget-char", .f21c, .sget, some .char, none, true⟩
  | .sgetShort => ⟨0x66, "sget-short", .f21c, .sget, some .short, none, true⟩
  | .sput => ⟨0x67, "sput", .f21c, .sput, some .narrow, none, true⟩
  | .sputWide => ⟨0x68, "sput-wide", .f21c, .sput, some .wide, none, true⟩
  | .sputObject => ⟨0x69, "sput-object", .f21c, .sput, some .object, none, true⟩
  | .sputBoolean => ⟨0x6a, "sput-boolean", .f21c, .sput, some .boolean, none, true⟩
  | .sputByte => ⟨0x6b, "sput-byte", .f21c, .sput, some .byte, none, true⟩
  | .sputChar => ⟨0x6c, "sput-char", .f21c, .sput, some .char, none, true⟩
  | .sputShort => ⟨0x6d, "sput-short", .f21c, .sput, some .short, none, true⟩
  | .invokeVirtual => ⟨0x6e, "invoke-virtual", .f35c, .invoke, none, none, true⟩
  | .invokeSuper => ⟨0x6f, "invoke-super", .f35c, .invoke, none, none, true⟩
  | .invokeDirect => ⟨0x70, "invoke-direct", .f35c, .invoke, none, none, true⟩
  | .invokeStatic => ⟨0x71, "invoke-static", .f35c, .invoke, none, none, true⟩
  | .invokeInterface => ⟨0x72, "invoke-interface", .f35c, .invoke, none, none, true⟩
  | .invokeVirtualRange => ⟨0x74, "invoke-virtual/range", .f3rc, .invoke, none, none, true⟩
  | .invokeSuperRange => ⟨0x75, "invoke-super/range", .f3rc, .invoke, none, none, true⟩
  | .invokeDirectRange => ⟨0x76, "invoke-direct/range", .f3rc, .invoke, none, none, true⟩
  | .invokeStaticRange => ⟨0x77, "invoke-static/range", .f3rc, .invoke, none, none, true⟩
  | .invokeInterfaceRange => ⟨0x78, "invoke-interface/range", .f3rc, .invoke, none, none, true⟩
  | .negInt => ⟨0x7b, "neg-int", .f12x, .neg, some .int, none, false⟩
  | .notInt => ⟨0x7c, "not-int", .f12x, .not, some .int, none, false⟩
  | .negLong => ⟨0x7d, "neg-long", .f12x, .neg, some .long, none, false⟩
  | .notLong => ⟨0x7e, "not-long", .f12x, .not, some .long, none, false⟩
  | .negFloat => ⟨0x7f, "neg-float", .f12x, .neg, some .float, none, false⟩
  | .negDouble => ⟨0x80, "neg-double", .f12x, .neg, some .double, none, false⟩
  | .intToLong => ⟨0x81, "int-to-long", .f12x, .convert, some .int, some .long, false⟩
  | .intToFloat => ⟨0x82, "int-to-float", .f12x, .convert, some .int, some .float, false⟩
  | .intToDouble => ⟨0x83, "int-to-double", .f12x, .convert, some .int, some .double, false⟩
  | .longToInt => ⟨0x84, "long-to-int", .f12x, .convert, some .long, some .int, false⟩
  | .longToFloat => ⟨0x85, "long-to-float", .f12x, .convert, some .long, some .float, false⟩
  | .longToDouble => ⟨0x86, "long-to-double", .f12x, .convert, some .long, some .double, false⟩
  | .floatToInt => ⟨0x87, "float-to-int", .f12x, .convert, some .float, some .int, false⟩
  | .floatToLong => ⟨0x88, "float-to-long", .f12x, .convert, some .float, some .long, false⟩
  | .floatToDouble => ⟨0x89, "float-to-double", .f12x, .convert, some .float, some .double, false⟩
  | .doubleToInt => ⟨0x8a, "double-to-int", .f12x, .convert, some .double, some .int, false⟩
  | .doubleToLong => ⟨0x8b, "double-to-long", .f12x, .convert, some .double, some .long, false⟩
  | .doubleToFloat => ⟨0x8c, "double-to-float", .f12x, .convert, some .double, some .float, false⟩
  | .intToByte => ⟨0x8d, "int-to-byte", .f12x, .convert, some .int, some .byte, false⟩
  | .intToChar => ⟨0x8e, "int-to-char", .f12x, .convert, some .int, some .char, false⟩
  | .intToShort => ⟨0x8f, "int-to-short", .f12x, .convert, some .int, some .short, false⟩
  | .addInt => ⟨0x90, "add-int", .f23x, .binop, some .int, none, false⟩
  | .subInt => ⟨0x91, "sub-int", .f23x, .binop, some .int, none, false⟩
  | .mulInt => ⟨0x92, "mul-int", .f23x, .binop, some .int, none, false⟩
  | .divInt => ⟨0x93, "div-int", .f23x, .binop, some .int, none, true⟩
  | .remInt => ⟨0x94, "rem-int", .f23x, .binop, some .int, none, true⟩
  | .andInt => ⟨0x95, "and-int", .f23x, .binop, some .int, none, false⟩
  | .orInt => ⟨0x96, "or-int", .f23x, .binop, some .int, none, false⟩
  | .xorInt => ⟨0x97, "xor-int", .f23x, .binop, some .int, none, false⟩
  | .shlInt => ⟨0x98, "shl-int", .f23x, .binop, some .int, none, false⟩
  | .shrInt => ⟨0x99, "shr-int", .f23x, .binop, some .int, none, false⟩
  | .ushrInt => ⟨0x9a, "ushr-int", .f23x, .binop, some .int, none, false⟩
  | .addLong => ⟨0x9b, "add-long", .f23x, .binop, some .long, none, false⟩
  | .subLong => ⟨0x9c, "sub-long", .f23x, .binop, some .long, none, false⟩
  | .mulLong => ⟨0x9d, "mul-long", .f23x, .binop, some .long, none, false⟩
  | .divLong => ⟨0x9e, "div-long", .f23x, .binop, some .long, none, true⟩
  | .remLong => ⟨0x9f, "rem-long", .f23x, .binop, some .long, none, true⟩
  | .andLong => ⟨0xa0, "and-long", .f23x, .binop, some .long, none, false⟩
  | .orLong => ⟨0xa1, "or-long", .f23x, .binop, some .long, none, false⟩
  | .xorLong => ⟨0xa2, "xor-long", .f23x, .binop, some .long, none, false⟩
  | .shlLong => ⟨0xa3, "shl-long", .f23x, .binop, some .long, none, false⟩
  | .shrLong => ⟨0xa4, "shr-long", .f23x, .binop, some .long, none, false⟩
  | .ushrLong => ⟨0xa5, "ushr-long", .f23x, .binop, some .long, none, false⟩
  | .addFloat => ⟨0xa6, "add-float", .f23x, .binop, some .float, none, false⟩
  | .subFloat => ⟨0xa7, "sub-float", .f23x, .binop, some .float, none, false⟩
  | .mulFloat => ⟨0xa8, "mul-float", .f23x, .binop, some .float, none, false⟩
  | .divFloat => ⟨0xa9, "div-float", .f23x, .binop, some .float, none, false⟩
  | .remFloat => ⟨0xaa, "rem-float", .f23x, .binop, some .float, none, false⟩
  | .addDouble => ⟨0xab, "add-double", .f23x, .binop, some .double, none, false⟩
  | .subDouble => ⟨0xac, "sub-double", .f23x, .binop, some .double, none, false⟩
  | .mulDouble => ⟨0xad, "mul-double", .f23x, .binop, some .double, none, false⟩
  | .divDouble => ⟨0xae, "div-double", .f23x, .binop, some .double, none, false⟩
  | .remDouble => ⟨0xaf, "rem-double", .f23x, .binop, some .double, none, false⟩
  | .addInt2addr => ⟨0xb0, "add-int/2addr", .f12x, .binop2addr, some .int, none, false⟩
  | .subInt2addr => ⟨0xb1, "sub-int/2addr", .f12x, .binop2addr, some .int, none, false⟩
  | .mulInt2addr => ⟨0xb2, "mul-int/2addr", .f12x, .binop2addr, some .int, none, false⟩
  | .divInt2addr => ⟨0xb3, "div-int/2addr", .f12x, .binop2addr, some .int, none, true⟩
  | .remInt2addr => ⟨0xb4, "rem-int/2addr", .f12x, .binop2addr, some .int, none, true⟩
  | .andInt2addr => ⟨0xb5, "and-int/2addr", .f12x, .binop2addr, some .int, none, false⟩
  | .orInt2addr => ⟨0xb6, "or-int/2addr", .f12x, .binop2addr, some .int, none, false⟩
  | .xorInt2addr => ⟨0xb7, "xor-int/2addr", .f12x, .binop2addr, some .int, none, false⟩
  | .shlInt2addr => ⟨0xb8, "shl-int/2addr", .f12x, .binop2addr, some .int, none, false⟩
  | .shrInt2addr => ⟨0xb9, "shr-int/2addr", .f12x, .binop2addr, some .int, none, false⟩
  | .ushrInt2addr => ⟨0xba, "ushr-int/2addr", .f12x, .binop2addr, some .int, none, false⟩
  | .addLong2addr => ⟨0xbb, "add-long/2addr", .f12x, .binop2addr, some .long, none, false⟩
  | .subLong2addr => ⟨0xbc, "sub-long/2addr", .f12x, .binop2addr, some .long, none, false⟩
  | .mulLong2addr => ⟨0xbd, "mul-long/2addr", .f12x, .binop2addr, some .long, none, false⟩
  | .divLong2addr => ⟨0xbe, "div-long/2addr", .f12x, .binop2addr, some .long, none, true⟩
  | .remLong2addr => ⟨0xbf, "rem-long/2addr", .f12x, .binop2addr, some .long, none, true⟩
  | .andLong2addr => ⟨0xc0, "and-long/2addr", .f12x, .binop2addr, some .long, none, false⟩
  | .orLong2addr => ⟨0xc1, "or-long/2addr", .f12x, .binop2addr, some .long, none, false⟩
  | .xorLong2addr => ⟨0xc2, "xor-long/2addr", .f12x, .binop2addr, some .long, none, false⟩
  | .shlLong2addr => ⟨0xc3, "shl-long/2addr", .f12x, .binop2addr, some .long, none, false⟩
  | .shrLong2addr => ⟨0xc4, "shr-long/2addr", .f12x, .binop2addr, some .long, none, false⟩
  | .ushrLong2addr => ⟨0xc5, "ushr-long/2addr", .f12x, .binop2addr, some .long, none, false⟩
  | .addFloat2addr => ⟨0xc6, "add-float/2addr", .f12x, .binop2addr, some .float, none, false⟩
  | .subFloat2addr => ⟨0xc7, "sub-float/2addr", .f12x, .binop2addr, some .float, none, false⟩
  | .mulFloat2addr => ⟨0xc8, "mul-float/2addr", .f12x, .binop2addr, some .float, none, false⟩
  | .divFloat2addr => ⟨0xc9, "div-float/2addr", .f12x, .binop2addr, some .float, none, false⟩
  | .remFloat2addr => ⟨0xca, "rem-float/2addr", .f12x, .binop2addr, some .float, none, false⟩
  | .addDouble2addr => ⟨0xcb, "add-double/2addr", .f12x, .binop2addr, some .double, none, false⟩
  | .subDouble2addr => ⟨0xcc, "sub-double/2addr", .f12x, .binop2addr, some .double, none, false⟩
  | .mulDouble2addr => ⟨0xcd, "mul-double/2addr", .f12x, .binop2addr, some .double, none, false⟩
  | .divDouble2addr => ⟨0xce, "div-double/2addr", .f12x, .binop2addr, some .double, none, false⟩
  | .remDouble2addr => ⟨0xcf, "rem-double/2addr", .f12x, .binop2addr, some .double, none, false⟩
  | .addIntLit16 => ⟨0xd0, "add-int/lit16", .f22s, .binopLit, some .int, none, false⟩
  | .rsubInt => ⟨0xd1, "rsub-int", .f22s, .binopLit, some .int, none, false⟩
  | .mulIntLit16 => ⟨0xd2, "mul-int/lit16", .f22s, .binopLit, some .int, none, false⟩
  | .divIntLit16 => ⟨0xd3, "div-int/lit16", .f22s, .binopLit, some .int, none, true⟩
  | .remIntLit16 => ⟨0xd4, "rem-int/lit16", .f22s, .binopLit, some .int, none, true⟩
  | .andIntLit16 => ⟨0xd5, "and-int/lit16", .f22s, .binopLit, some .int, none, false⟩
  | .orIntLit16 => ⟨0xd6, "or-int/lit16", .f22s, .binopLit, some .int, none, false⟩
  | .xorIntLit16 => ⟨0xd7, "xor-int/lit16", .f22s, .binopLit, some .int, none, false⟩
  | .addIntLit8 => ⟨0xd8, "add-int/lit8", .f22b, .binopLit, some .int, none, false⟩
  | .rsubIntLit8 => ⟨0xd9, "rsub-int/lit8", .f22b, .binopLit, some .int, none, false⟩
  | .mulIntLit8 => ⟨0xda, "mul-int/lit8", .f22b, .binopLit, some .int, none, false⟩
  | .divIntLit8 => ⟨0xdb, "div-int/lit8", .f22b, .binopLit, some .int, none, true⟩
  | .remIntLit8 => ⟨0xdc, "rem-int/lit8", .f22b, .binopLit, some .int, none, true⟩
  | .andIntLit8 => ⟨0xdd, "and-int/lit8", .f22b, .binopLit, some .int, none, false⟩
  | .orIntLit8 => ⟨0xde, "or-int/lit8", .f22b, .binopLit, some .int, none, false⟩
  | .xorIntLit8 => ⟨0xdf, "xor-int/lit8", .f22b, .binopLit, some .int, none, false⟩
  | .shlIntLit8 => ⟨0xe0, "shl-int/lit8", .f22b, .binopLit, some .int, none, false⟩
  | .shrIntLit8 => ⟨0xe1, "shr-int/lit8", .f22b, .binopLit, some .int, none, false⟩
  | .ushrIntLit8 => ⟨0xe2, "ushr-int/lit8", .f22b, .binopLit, some .int, none, false⟩

end Opcode

end Dalvik
