import Tosemu.ProgramControl
import Tosemu.Shifts

/-!
The table of `m68k_in.c`, row by row: the name of an opcode, its size, its bit pattern, the
addressing modes it allows, and what its handler does for each condition and mode that `m68kmake`
puts in. A handler that is there for a 68010 or a 68020 only finds a 68000, and takes the exception
at its end.
-/

namespace Tosemu.M68k

inductive OpcodeHandler
  | run (f : Insn → Emu Unit)
  | trap (f : Insn → (Long → Machine → Machine) → Emu Unit)
  | stop (f : Insn → Emu Bool)

structure OpcodeStruct where
  name : String
  size : ℕ
  bitpattern : String
  eaAllowed : String
  handler : Cc → Ea → OpcodeHandler

open OpcodeHandler

def opcodesAc : List OpcodeStruct := [
  ⟨"1010", 0, "1010............", "..........", fun _ _ => run exception1010⟩,
  ⟨"1111", 0, "1111............", "..........", fun _ _ => run exception1111⟩,
  ⟨"abcd", 8, "1100...100000...", "..........", fun _ _ => run opAbcdRr⟩,
  ⟨"abcd", 8, "1100111100001...", "..........", fun _ _ => run (opAbcdMm · .pd .pd7)⟩,
  ⟨"abcd", 8, "1100...100001111", "..........", fun _ _ => run (opAbcdMm · .pd7 .pd)⟩,
  ⟨"abcd", 8, "1100111100001111", "..........", fun _ _ => run (opAbcdMm · .pd7 .pd7)⟩,
  ⟨"abcd", 8, "1100...100001...", "..........", fun _ _ => run (opAbcdMm · .pd .pd)⟩,
  ⟨"add", 8, "1101...000000...", "..........", fun _ _ => run (opAddEr .byte · .d)⟩,
  ⟨"add", 8, "1101...000......", "A+-DXWLdxI", fun _ e => run (opAddEr .byte · (.mode e))⟩,
  ⟨"add", 16, "1101...001000...", "..........", fun _ _ => run (opAddEr .word · .d)⟩,
  ⟨"add", 16, "1101...001001...", "..........", fun _ _ => run (opAddEr .word · .a)⟩,
  ⟨"add", 16, "1101...001......", "A+-DXWLdxI", fun _ e => run (opAddEr .word · (.mode e))⟩,
  ⟨"add", 32, "1101...010000...", "..........", fun _ _ => run (opAddEr .long · .d)⟩,
  ⟨"add", 32, "1101...010001...", "..........", fun _ _ => run (opAddEr .long · .a)⟩,
  ⟨"add", 32, "1101...010......", "A+-DXWLdxI", fun _ e => run (opAddEr .long · (.mode e))⟩,
  ⟨"add", 8, "1101...100......", "A+-DXWL...", fun _ e => run (opAddRe .byte · e)⟩,
  ⟨"add", 16, "1101...101......", "A+-DXWL...", fun _ e => run (opAddRe .word · e)⟩,
  ⟨"add", 32, "1101...110......", "A+-DXWL...", fun _ e => run (opAddRe .long · e)⟩,
  ⟨"adda", 16, "1101...011000...", "..........", fun _ _ => run (opAdda .word · .d)⟩,
  ⟨"adda", 16, "1101...011001...", "..........", fun _ _ => run (opAdda .word · .a)⟩,
  ⟨"adda", 16, "1101...011......", "A+-DXWLdxI", fun _ e => run (opAdda .word · (.mode e))⟩,
  ⟨"adda", 32, "1101...111000...", "..........", fun _ _ => run (opAdda .long · .d)⟩,
  ⟨"adda", 32, "1101...111001...", "..........", fun _ _ => run (opAdda .long · .a)⟩,
  ⟨"adda", 32, "1101...111......", "A+-DXWLdxI", fun _ e => run (opAdda .long · (.mode e))⟩,
  ⟨"addi", 8, "0000011000000...", "..........", fun _ _ => run (opAddiD .byte)⟩,
  ⟨"addi", 8, "0000011000......", "A+-DXWL...", fun _ e => run (opAddi .byte · e)⟩,
  ⟨"addi", 16, "0000011001000...", "..........", fun _ _ => run (opAddiD .word)⟩,
  ⟨"addi", 16, "0000011001......", "A+-DXWL...", fun _ e => run (opAddi .word · e)⟩,
  ⟨"addi", 32, "0000011010000...", "..........", fun _ _ => run (opAddiD .long)⟩,
  ⟨"addi", 32, "0000011010......", "A+-DXWL...", fun _ e => run (opAddi .long · e)⟩,
  ⟨"addq", 8, "0101...000000...", "..........", fun _ _ => run (opAddqD .byte)⟩,
  ⟨"addq", 8, "0101...000......", "A+-DXWL...", fun _ e => run (opAddq .byte · e)⟩,
  ⟨"addq", 16, "0101...001000...", "..........", fun _ _ => run (opAddqD .word)⟩,
  ⟨"addq", 16, "0101...001001...", "..........", fun _ _ => run opAddqA⟩,
  ⟨"addq", 16, "0101...001......", "A+-DXWL...", fun _ e => run (opAddq .word · e)⟩,
  ⟨"addq", 32, "0101...010000...", "..........", fun _ _ => run (opAddqD .long)⟩,
  ⟨"addq", 32, "0101...010001...", "..........", fun _ _ => run opAddqA⟩,
  ⟨"addq", 32, "0101...010......", "A+-DXWL...", fun _ e => run (opAddq .long · e)⟩,
  ⟨"addx", 8, "1101...100000...", "..........", fun _ _ => run (opAddxRr .byte)⟩,
  ⟨"addx", 16, "1101...101000...", "..........", fun _ _ => run (opAddxRr .word)⟩,
  ⟨"addx", 32, "1101...110000...", "..........", fun _ _ => run (opAddxRr .long)⟩,
  ⟨"addx", 8, "1101111100001...", "..........", fun _ _ => run (opAddxMm .byte · .pd .pd7)⟩,
  ⟨"addx", 8, "1101...100001111", "..........", fun _ _ => run (opAddxMm .byte · .pd7 .pd)⟩,
  ⟨"addx", 8, "1101111100001111", "..........", fun _ _ => run (opAddxMm .byte · .pd7 .pd7)⟩,
  ⟨"addx", 8, "1101...100001...", "..........", fun _ _ => run (opAddxMm .byte · .pd .pd)⟩,
  ⟨"addx", 16, "1101...101001...", "..........", fun _ _ => run (opAddxMm .word · .pd .pd)⟩,
  ⟨"addx", 32, "1101...110001...", "..........", fun _ _ => run (opAddxMm .long · .pd .pd)⟩,
  ⟨"and", 8, "1100...000000...", "..........", fun _ _ => run (opLogicEr .byte · .and .d)⟩,
  ⟨"and", 8, "1100...000......", "A+-DXWLdxI", fun _ e => run (opLogicEr .byte · .and (.mode e))⟩,
  ⟨"and", 16, "1100...001000...", "..........", fun _ _ => run (opLogicEr .word · .and .d)⟩,
  ⟨"and", 16, "1100...001......", "A+-DXWLdxI", fun _ e => run (opLogicEr .word · .and (.mode e))⟩,
  ⟨"and", 32, "1100...010000...", "..........", fun _ _ => run (opLogicEr .long · .and .d)⟩,
  ⟨"and", 32, "1100...010......", "A+-DXWLdxI", fun _ e => run (opLogicEr .long · .and (.mode e))⟩,
  ⟨"and", 8, "1100...100......", "A+-DXWL...", fun _ e => run (opLogicRe .byte · .and e)⟩,
  ⟨"and", 16, "1100...101......", "A+-DXWL...", fun _ e => run (opLogicRe .word · .and e)⟩,
  ⟨"and", 32, "1100...110......", "A+-DXWL...", fun _ e => run (opLogicRe .long · .and e)⟩,
  ⟨"andi", 16, "0000001000111100", "..........", fun _ _ => run fun _ => opLogiciToc .and⟩,
  ⟨"andi", 16, "0000001001111100", "..........", fun _ _ => run (opLogiciTos · .and)⟩,
  ⟨"andi", 8, "0000001000000...", "..........", fun _ _ => run (opLogiciD .byte · .and)⟩,
  ⟨"andi", 8, "0000001000......", "A+-DXWL...", fun _ e => run (opLogici .byte · .and e)⟩,
  ⟨"andi", 16, "0000001001000...", "..........", fun _ _ => run (opLogiciD .word · .and)⟩,
  ⟨"andi", 16, "0000001001......", "A+-DXWL...", fun _ e => run (opLogici .word · .and e)⟩,
  ⟨"andi", 32, "0000001010000...", "..........", fun _ _ => run (opLogiciD .long · .and)⟩,
  ⟨"andi", 32, "0000001010......", "A+-DXWL...", fun _ e => run (opLogici .long · .and e)⟩,
  ⟨"asr", 8, "1110...000000...", "..........", fun _ _ => run (opShiftS .byte · .asr)⟩,
  ⟨"asr", 16, "1110...001000...", "..........", fun _ _ => run (opShiftS .word · .asr)⟩,
  ⟨"asr", 32, "1110...010000...", "..........", fun _ _ => run (opShiftS .long · .asr)⟩,
  ⟨"asr", 8, "1110...000100...", "..........", fun _ _ => run (opShiftR .byte · .asr)⟩,
  ⟨"asr", 16, "1110...001100...", "..........", fun _ _ => run (opShiftR .word · .asr)⟩,
  ⟨"asr", 32, "1110...010100...", "..........", fun _ _ => run (opShiftR .long · .asr)⟩,
  ⟨"asr", 16, "1110000011......", "A+-DXWL...", fun _ e => run (opShiftMem · .asr e)⟩,
  ⟨"asl", 8, "1110...100000...", "..........", fun _ _ => run (opShiftS .byte · .asl)⟩,
  ⟨"asl", 16, "1110...101000...", "..........", fun _ _ => run (opShiftS .word · .asl)⟩,
  ⟨"asl", 32, "1110...110000...", "..........", fun _ _ => run (opShiftS .long · .asl)⟩,
  ⟨"asl", 8, "1110...100100...", "..........", fun _ _ => run (opShiftR .byte · .asl)⟩,
  ⟨"asl", 16, "1110...101100...", "..........", fun _ _ => run (opShiftR .word · .asl)⟩,
  ⟨"asl", 32, "1110...110100...", "..........", fun _ _ => run (opShiftR .long · .asl)⟩,
  ⟨"asl", 16, "1110000111......", "A+-DXWL...", fun _ e => run (opShiftMem · .asl e)⟩,
  ⟨"bcc", 8, "0110............", "..........", fun k _ => run (opBcc8 · k)⟩,
  ⟨"bcc", 16, "0110....00000000", "..........", fun k _ => run fun _ => opBcc16 k⟩,
  ⟨"bcc", 32, "0110....11111111", "..........", fun _ _ => run exceptionIllegal⟩,
  ⟨"bchg", 8, "0000...101......", "A+-DXWL...", fun _ e => run (opBit · .bchg .r e)⟩,
  ⟨"bchg", 32, "0000...101000...", "..........", fun _ _ => run (opBitD · .bchg .r)⟩,
  ⟨"bchg", 8, "0000100001......", "A+-DXWL...", fun _ e => run (opBit · .bchg .s e)⟩,
  ⟨"bchg", 32, "0000100001000...", "..........", fun _ _ => run (opBitD · .bchg .s)⟩,
  ⟨"bclr", 8, "0000...110......", "A+-DXWL...", fun _ e => run (opBit · .bclr .r e)⟩,
  ⟨"bclr", 32, "0000...110000...", "..........", fun _ _ => run (opBitD · .bclr .r)⟩,
  ⟨"bclr", 8, "0000100010......", "A+-DXWL...", fun _ e => run (opBit · .bclr .s e)⟩,
  ⟨"bclr", 32, "0000100010000...", "..........", fun _ _ => run (opBitD · .bclr .s)⟩,
  ⟨"bfchg", 32, "1110101011000...", "..........", fun _ _ => run exceptionIllegal⟩,
  ⟨"bfchg", 32, "1110101011......", "A..DXWL...", fun _ _ => run exceptionIllegal⟩,
  ⟨"bfclr", 32, "1110110011000...", "..........", fun _ _ => run exceptionIllegal⟩,
  ⟨"bfclr", 32, "1110110011......", "A..DXWL...", fun _ _ => run exceptionIllegal⟩,
  ⟨"bfexts", 32, "1110101111000...", "..........", fun _ _ => run exceptionIllegal⟩,
  ⟨"bfexts", 32, "1110101111......", "A..DXWLdx.", fun _ _ => run exceptionIllegal⟩,
  ⟨"bfextu", 32, "1110100111000...", "..........", fun _ _ => run exceptionIllegal⟩,
  ⟨"bfextu", 32, "1110100111......", "A..DXWLdx.", fun _ _ => run exceptionIllegal⟩,
  ⟨"bfffo", 32, "1110110111000...", "..........", fun _ _ => run exceptionIllegal⟩,
  ⟨"bfffo", 32, "1110110111......", "A..DXWLdx.", fun _ _ => run exceptionIllegal⟩,
  ⟨"bfins", 32, "1110111111000...", "..........", fun _ _ => run exceptionIllegal⟩,
  ⟨"bfins", 32, "1110111111......", "A..DXWL...", fun _ _ => run exceptionIllegal⟩,
  ⟨"bfset", 32, "1110111011000...", "..........", fun _ _ => run exceptionIllegal⟩,
  ⟨"bfset", 32, "1110111011......", "A..DXWL...", fun _ _ => run exceptionIllegal⟩,
  ⟨"bftst", 32, "1110100011000...", "..........", fun _ _ => run exceptionIllegal⟩,
  ⟨"bftst", 32, "1110100011......", "A..DXWLdx.", fun _ _ => run exceptionIllegal⟩,
  ⟨"bkpt", 0, "0100100001001...", "..........", fun _ _ => run exceptionIllegal⟩,
  ⟨"bra", 8, "01100000........", "..........", fun _ _ => run opBra8⟩,
  ⟨"bra", 16, "0110000000000000", "..........", fun _ _ => run fun _ => opBra16⟩,
  ⟨"bra", 32, "0110000011111111", "..........", fun _ _ => run exceptionIllegal⟩,
  ⟨"bset", 32, "0000...111000...", "..........", fun _ _ => run (opBitD · .bset .r)⟩,
  ⟨"bset", 8, "0000...111......", "A+-DXWL...", fun _ e => run (opBit · .bset .r e)⟩,
  ⟨"bset", 8, "0000100011......", "A+-DXWL...", fun _ e => run (opBit · .bset .s e)⟩,
  ⟨"bset", 32, "0000100011000...", "..........", fun _ _ => run (opBitD · .bset .s)⟩,
  ⟨"bsr", 8, "01100001........", "..........", fun _ _ => run opBsr8⟩,
  ⟨"bsr", 16, "0110000100000000", "..........", fun _ _ => run fun _ => opBsr16⟩,
  ⟨"bsr", 32, "0110000111111111", "..........", fun _ _ => run exceptionIllegal⟩,
  ⟨"btst", 8, "0000...100......", "A+-DXWLdxI", fun _ e => run (opBtst · .r e)⟩,
  ⟨"btst", 32, "0000...100000...", "..........", fun _ _ => run (opBtstD · .r)⟩,
  ⟨"btst", 8, "0000100000......", "A+-DXWLdx.", fun _ e => run (opBtst · .s e)⟩,
  ⟨"btst", 32, "0000100000000...", "..........", fun _ _ => run (opBtstD · .s)⟩,
  ⟨"callm", 32, "0000011011......", "A..DXWLdx.", fun _ _ => run exceptionIllegal⟩,
  ⟨"cas", 8, "0000101011......", "A+-DXWL...", fun _ _ => run exceptionIllegal⟩,
  ⟨"cas", 16, "0000110011......", "A+-DXWL...", fun _ _ => run exceptionIllegal⟩,
  ⟨"cas", 32, "0000111011......", "A+-DXWL...", fun _ _ => run exceptionIllegal⟩,
  ⟨"cas2", 16, "0000110011111100", "..........", fun _ _ => run exceptionIllegal⟩,
  ⟨"cas2", 32, "0000111011111100", "..........", fun _ _ => run exceptionIllegal⟩,
  ⟨"chk", 16, "0100...110000...", "..........", fun _ _ => run (opChk · .d)⟩,
  ⟨"chk", 16, "0100...110......", "A+-DXWLdxI", fun _ e => run (opChk · (.mode e))⟩,
  ⟨"chk", 32, "0100...100000...", "..........", fun _ _ => run exceptionIllegal⟩,
  ⟨"chk", 32, "0100...100......", "A+-DXWLdxI", fun _ _ => run exceptionIllegal⟩,
  ⟨"chk2cmp2", 8, "0000000011111010", "..........", fun _ _ => run exceptionIllegal⟩,
  ⟨"chk2cmp2", 8, "0000000011111011", "..........", fun _ _ => run exceptionIllegal⟩,
  ⟨"chk2cmp2", 8, "0000000011......", "A..DXWL...", fun _ _ => run exceptionIllegal⟩,
  ⟨"chk2cmp2", 16, "0000001011111010", "..........", fun _ _ => run exceptionIllegal⟩,
  ⟨"chk2cmp2", 16, "0000001011111011", "..........", fun _ _ => run exceptionIllegal⟩,
  ⟨"chk2cmp2", 16, "0000001011......", "A..DXWL...", fun _ _ => run exceptionIllegal⟩,
  ⟨"chk2cmp2", 32, "0000010011111010", "..........", fun _ _ => run exceptionIllegal⟩,
  ⟨"chk2cmp2", 32, "0000010011111011", "..........", fun _ _ => run exceptionIllegal⟩,
  ⟨"chk2cmp2", 32, "0000010011......", "A..DXWL...", fun _ _ => run exceptionIllegal⟩,
  ⟨"clr", 8, "0100001000000...", "..........", fun _ _ => run (opClrD .byte)⟩,
  ⟨"clr", 8, "0100001000......", "A+-DXWL...", fun _ e => run (opClr .byte · e)⟩,
  ⟨"clr", 16, "0100001001000...", "..........", fun _ _ => run (opClrD .word)⟩,
  ⟨"clr", 16, "0100001001......", "A+-DXWL...", fun _ e => run (opClr .word · e)⟩,
  ⟨"clr", 32, "0100001010000...", "..........", fun _ _ => run (opClrD .long)⟩,
  ⟨"clr", 32, "0100001010......", "A+-DXWL...", fun _ e => run (opClr .long · e)⟩,
  ⟨"cmp", 8, "1011...000000...", "..........", fun _ _ => run (opCmp .byte · .d)⟩,
  ⟨"cmp", 8, "1011...000......", "A+-DXWLdxI", fun _ e => run (opCmp .byte · (.mode e))⟩,
  ⟨"cmp", 16, "1011...001000...", "..........", fun _ _ => run (opCmp .word · .d)⟩,
  ⟨"cmp", 16, "1011...001001...", "..........", fun _ _ => run (opCmp .word · .a)⟩,
  ⟨"cmp", 16, "1011...001......", "A+-DXWLdxI", fun _ e => run (opCmp .word · (.mode e))⟩,
  ⟨"cmp", 32, "1011...010000...", "..........", fun _ _ => run (opCmp .long · .d)⟩,
  ⟨"cmp", 32, "1011...010001...", "..........", fun _ _ => run (opCmp .long · .a)⟩,
  ⟨"cmp", 32, "1011...010......", "A+-DXWLdxI", fun _ e => run (opCmp .long · (.mode e))⟩,
  ⟨"cmpa", 16, "1011...011000...", "..........", fun _ _ => run (opCmpa .word · .d)⟩,
  ⟨"cmpa", 16, "1011...011001...", "..........", fun _ _ => run (opCmpa .word · .a)⟩,
  ⟨"cmpa", 16, "1011...011......", "A+-DXWLdxI", fun _ e => run (opCmpa .word · (.mode e))⟩,
  ⟨"cmpa", 32, "1011...111000...", "..........", fun _ _ => run (opCmpa .long · .d)⟩,
  ⟨"cmpa", 32, "1011...111001...", "..........", fun _ _ => run (opCmpa .long · .a)⟩,
  ⟨"cmpa", 32, "1011...111......", "A+-DXWLdxI", fun _ e => run (opCmpa .long · (.mode e))⟩,
  ⟨"cmpi", 8, "0000110000000...", "..........", fun _ _ => run (opCmpiD .byte)⟩,
  ⟨"cmpi", 8, "0000110000......", "A+-DXWL...", fun _ e => run (opCmpi .byte · e)⟩,
  ⟨"cmpi", 8, "0000110000111010", "..........", fun _ _ => run exceptionIllegal⟩,
  ⟨"cmpi", 8, "0000110000111011", "..........", fun _ _ => run exceptionIllegal⟩,
  ⟨"cmpi", 16, "0000110001000...", "..........", fun _ _ => run (opCmpiD .word)⟩,
  ⟨"cmpi", 16, "0000110001......", "A+-DXWL...", fun _ e => run (opCmpi .word · e)⟩,
  ⟨"cmpi", 16, "0000110001111010", "..........", fun _ _ => run exceptionIllegal⟩,
  ⟨"cmpi", 16, "0000110001111011", "..........", fun _ _ => run exceptionIllegal⟩,
  ⟨"cmpi", 32, "0000110010000...", "..........", fun _ _ => run (opCmpiD .long)⟩,
  ⟨"cmpi", 32, "0000110010......", "A+-DXWL...", fun _ e => run (opCmpi .long · e)⟩,
  ⟨"cmpi", 32, "0000110010111010", "..........", fun _ _ => run exceptionIllegal⟩,
  ⟨"cmpi", 32, "0000110010111011", "..........", fun _ _ => run exceptionIllegal⟩,
  ⟨"cmpm", 8, "1011111100001...", "..........", fun _ _ => run (opCmpm .byte · .pd .pd7)⟩,
  ⟨"cmpm", 8, "1011...100001111", "..........", fun _ _ => run (opCmpm .byte · .pd7 .pd)⟩,
  ⟨"cmpm", 8, "1011111100001111", "..........", fun _ _ => run (opCmpm .byte · .pd7 .pd7)⟩,
  ⟨"cmpm", 8, "1011...100001...", "..........", fun _ _ => run (opCmpm .byte · .pd .pd)⟩,
  ⟨"cmpm", 16, "1011...101001...", "..........", fun _ _ => run (opCmpm .word · .pd .pd)⟩,
  ⟨"cmpm", 32, "1011...110001...", "..........", fun _ _ => run (opCmpm .long · .pd .pd)⟩,
  ⟨"cpbcc", 32, "1111...01.......", "..........", fun _ _ => run exception1111⟩,
  ⟨"cpdbcc", 32, "1111...001001...", "..........", fun _ _ => run exception1111⟩,
  ⟨"cpgen", 32, "1111...000......", "..........", fun _ _ => run exception1111⟩,
  ⟨"cpscc", 32, "1111...001......", "..........", fun _ _ => run exception1111⟩,
  ⟨"cptrapcc", 32, "1111...001111...", "..........", fun _ _ => run exception1111⟩]

def opcodesDm : List OpcodeStruct := [
  ⟨"dbt", 16, "0101000011001...", "..........", fun _ _ => run fun _ => opDbt⟩,
  ⟨"dbf", 16, "0101000111001...", "..........", fun _ _ => run opDbf⟩,
  ⟨"dbcc", 16, "0101....11001...", "..........", fun k _ => run (opDbcc · k)⟩,
  ⟨"divs", 16, "1000...111000...", "..........", fun _ _ => run (opDivs · .d)⟩,
  ⟨"divs", 16, "1000...111......", "A+-DXWLdxI", fun _ e => run (opDivs · (.mode e))⟩,
  ⟨"divu", 16, "1000...011000...", "..........", fun _ _ => run (opDivu · .d)⟩,
  ⟨"divu", 16, "1000...011......", "A+-DXWLdxI", fun _ e => run (opDivu · (.mode e))⟩,
  ⟨"divl", 32, "0100110001000...", "..........", fun _ _ => run exceptionIllegal⟩,
  ⟨"divl", 32, "0100110001......", "A+-DXWLdxI", fun _ _ => run exceptionIllegal⟩,
  ⟨"eor", 8, "1011...100000...", "..........", fun _ _ => run (opEorD .byte)⟩,
  ⟨"eor", 8, "1011...100......", "A+-DXWL...", fun _ e => run (opLogicRe .byte · .eor e)⟩,
  ⟨"eor", 16, "1011...101000...", "..........", fun _ _ => run (opEorD .word)⟩,
  ⟨"eor", 16, "1011...101......", "A+-DXWL...", fun _ e => run (opLogicRe .word · .eor e)⟩,
  ⟨"eor", 32, "1011...110000...", "..........", fun _ _ => run (opEorD .long)⟩,
  ⟨"eor", 32, "1011...110......", "A+-DXWL...", fun _ e => run (opLogicRe .long · .eor e)⟩,
  ⟨"eori", 16, "0000101000111100", "..........", fun _ _ => run fun _ => opLogiciToc .eor⟩,
  ⟨"eori", 16, "0000101001111100", "..........", fun _ _ => run (opLogiciTos · .eor)⟩,
  ⟨"eori", 8, "0000101000000...", "..........", fun _ _ => run (opLogiciD .byte · .eor)⟩,
  ⟨"eori", 8, "0000101000......", "A+-DXWL...", fun _ e => run (opLogici .byte · .eor e)⟩,
  ⟨"eori", 16, "0000101001000...", "..........", fun _ _ => run (opLogiciD .word · .eor)⟩,
  ⟨"eori", 16, "0000101001......", "A+-DXWL...", fun _ e => run (opLogici .word · .eor e)⟩,
  ⟨"eori", 32, "0000101010000...", "..........", fun _ _ => run (opLogiciD .long · .eor)⟩,
  ⟨"eori", 32, "0000101010......", "A+-DXWL...", fun _ e => run (opLogici .long · .eor e)⟩,
  ⟨"exg", 32, "1100...101000...", "..........", fun _ _ => run opExgDd⟩,
  ⟨"exg", 32, "1100...101001...", "..........", fun _ _ => run opExgAa⟩,
  ⟨"exg", 32, "1100...110001...", "..........", fun _ _ => run opExgDa⟩,
  ⟨"ext", 16, "0100100010000...", "..........", fun _ _ => run opExt16⟩,
  ⟨"ext", 32, "0100100011000...", "..........", fun _ _ => run opExt32⟩,
  ⟨"extb", 32, "0100100111000...", "..........", fun _ _ => run exceptionIllegal⟩,
  ⟨"illegal", 0, "0100101011111100", "..........", fun _ _ => run exceptionIllegal⟩,
  ⟨"jmp", 32, "0100111011......", "A..DXWLdx.", fun _ e => run (opJmp · e)⟩,
  ⟨"jsr", 32, "0100111010......", "A..DXWLdx.", fun _ e => run (opJsr · e)⟩,
  ⟨"lea", 32, "0100...111......", "A..DXWLdx.", fun _ e => run (opLea · e)⟩,
  ⟨"link", 16, "0100111001010111", "..........", fun _ _ => run fun _ => opLinkA7⟩,
  ⟨"link", 16, "0100111001010...", "..........", fun _ _ => run opLink⟩,
  ⟨"link", 32, "0100100000001111", "..........", fun _ _ => run exceptionIllegal⟩,
  ⟨"link", 32, "0100100000001...", "..........", fun _ _ => run exceptionIllegal⟩,
  ⟨"lsr", 8, "1110...000001...", "..........", fun _ _ => run (opShiftS .byte · .lsr)⟩,
  ⟨"lsr", 16, "1110...001001...", "..........", fun _ _ => run (opShiftS .word · .lsr)⟩,
  ⟨"lsr", 32, "1110...010001...", "..........", fun _ _ => run (opShiftS .long · .lsr)⟩,
  ⟨"lsr", 8, "1110...000101...", "..........", fun _ _ => run (opShiftR .byte · .lsr)⟩,
  ⟨"lsr", 16, "1110...001101...", "..........", fun _ _ => run (opShiftR .word · .lsr)⟩,
  ⟨"lsr", 32, "1110...010101...", "..........", fun _ _ => run (opShiftR .long · .lsr)⟩,
  ⟨"lsr", 16, "1110001011......", "A+-DXWL...", fun _ e => run (opShiftMem · .lsr e)⟩,
  ⟨"lsl", 8, "1110...100001...", "..........", fun _ _ => run (opShiftS .byte · .lsl)⟩,
  ⟨"lsl", 16, "1110...101001...", "..........", fun _ _ => run (opShiftS .word · .lsl)⟩,
  ⟨"lsl", 32, "1110...110001...", "..........", fun _ _ => run (opShiftS .long · .lsl)⟩,
  ⟨"lsl", 8, "1110...100101...", "..........", fun _ _ => run (opShiftR .byte · .lsl)⟩,
  ⟨"lsl", 16, "1110...101101...", "..........", fun _ _ => run (opShiftR .word · .lsl)⟩,
  ⟨"lsl", 32, "1110...110101...", "..........", fun _ _ => run (opShiftR .long · .lsl)⟩,
  ⟨"lsl", 16, "1110001111......", "A+-DXWL...", fun _ e => run (opShiftMem · .lsl e)⟩,
  ⟨"move", 8, "0001...000000...", "..........", fun _ _ => run (opMoveD .byte · .d)⟩,
  ⟨"move", 8, "0001...000......", "A+-DXWLdxI", fun _ e => run (opMoveD .byte · (.mode e))⟩,
  ⟨"move", 8, "0001...010000...", "..........", fun _ _ => run (opMove .byte · .ai .d)⟩,
  ⟨"move", 8, "0001...010......", "A+-DXWLdxI", fun _ e => run (opMove .byte · .ai (.mode e))⟩,
  ⟨"move", 8, "0001...011000...", "..........", fun _ _ => run (opMove .byte · .pi .d)⟩,
  ⟨"move", 8, "0001...011......", "A+-DXWLdxI", fun _ e => run (opMove .byte · .pi (.mode e))⟩,
  ⟨"move", 8, "0001111011000...", "..........", fun _ _ => run (opMove .byte · .pi7 .d)⟩,
  ⟨"move", 8, "0001111011......", "A+-DXWLdxI", fun _ e => run (opMove .byte · .pi7 (.mode e))⟩,
  ⟨"move", 8, "0001...100000...", "..........", fun _ _ => run (opMove .byte · .pd .d)⟩,
  ⟨"move", 8, "0001...100......", "A+-DXWLdxI", fun _ e => run (opMove .byte · .pd (.mode e))⟩,
  ⟨"move", 8, "0001111100000...", "..........", fun _ _ => run (opMove .byte · .pd7 .d)⟩,
  ⟨"move", 8, "0001111100......", "A+-DXWLdxI", fun _ e => run (opMove .byte · .pd7 (.mode e))⟩,
  ⟨"move", 8, "0001...101000...", "..........", fun _ _ => run (opMove .byte · .di .d)⟩,
  ⟨"move", 8, "0001...101......", "A+-DXWLdxI", fun _ e => run (opMove .byte · .di (.mode e))⟩,
  ⟨"move", 8, "0001...110000...", "..........", fun _ _ => run (opMove .byte · .ix .d)⟩,
  ⟨"move", 8, "0001...110......", "A+-DXWLdxI", fun _ e => run (opMove .byte · .ix (.mode e))⟩,
  ⟨"move", 8, "0001000111000...", "..........", fun _ _ => run (opMove .byte · .aw .d)⟩,
  ⟨"move", 8, "0001000111......", "A+-DXWLdxI", fun _ e => run (opMove .byte · .aw (.mode e))⟩,
  ⟨"move", 8, "0001001111000...", "..........", fun _ _ => run (opMove .byte · .al .d)⟩,
  ⟨"move", 8, "0001001111......", "A+-DXWLdxI", fun _ e => run (opMove .byte · .al (.mode e))⟩,
  ⟨"move", 16, "0011...000000...", "..........", fun _ _ => run (opMoveD .word · .d)⟩,
  ⟨"move", 16, "0011...000001...", "..........", fun _ _ => run (opMoveD .word · .a)⟩,
  ⟨"move", 16, "0011...000......", "A+-DXWLdxI", fun _ e => run (opMoveD .word · (.mode e))⟩,
  ⟨"move", 16, "0011...010000...", "..........", fun _ _ => run (opMove .word · .ai .d)⟩,
  ⟨"move", 16, "0011...010001...", "..........", fun _ _ => run (opMove .word · .ai .a)⟩,
  ⟨"move", 16, "0011...010......", "A+-DXWLdxI", fun _ e => run (opMove .word · .ai (.mode e))⟩,
  ⟨"move", 16, "0011...011000...", "..........", fun _ _ => run (opMove .word · .pi .d)⟩,
  ⟨"move", 16, "0011...011001...", "..........", fun _ _ => run (opMove .word · .pi .a)⟩,
  ⟨"move", 16, "0011...011......", "A+-DXWLdxI", fun _ e => run (opMove .word · .pi (.mode e))⟩,
  ⟨"move", 16, "0011...100000...", "..........", fun _ _ => run (opMove .word · .pd .d)⟩,
  ⟨"move", 16, "0011...100001...", "..........", fun _ _ => run (opMove .word · .pd .a)⟩,
  ⟨"move", 16, "0011...100......", "A+-DXWLdxI", fun _ e => run (opMove .word · .pd (.mode e))⟩,
  ⟨"move", 16, "0011...101000...", "..........", fun _ _ => run (opMove .word · .di .d)⟩,
  ⟨"move", 16, "0011...101001...", "..........", fun _ _ => run (opMove .word · .di .a)⟩,
  ⟨"move", 16, "0011...101......", "A+-DXWLdxI", fun _ e => run (opMove .word · .di (.mode e))⟩,
  ⟨"move", 16, "0011...110000...", "..........", fun _ _ => run (opMove .word · .ix .d)⟩,
  ⟨"move", 16, "0011...110001...", "..........", fun _ _ => run (opMove .word · .ix .a)⟩,
  ⟨"move", 16, "0011...110......", "A+-DXWLdxI", fun _ e => run (opMove .word · .ix (.mode e))⟩,
  ⟨"move", 16, "0011000111000...", "..........", fun _ _ => run (opMove .word · .aw .d)⟩,
  ⟨"move", 16, "0011000111001...", "..........", fun _ _ => run (opMove .word · .aw .a)⟩,
  ⟨"move", 16, "0011000111......", "A+-DXWLdxI", fun _ e => run (opMove .word · .aw (.mode e))⟩,
  ⟨"move", 16, "0011001111000...", "..........", fun _ _ => run (opMove .word · .al .d)⟩,
  ⟨"move", 16, "0011001111001...", "..........", fun _ _ => run (opMove .word · .al .a)⟩,
  ⟨"move", 16, "0011001111......", "A+-DXWLdxI", fun _ e => run (opMove .word · .al (.mode e))⟩,
  ⟨"move", 32, "0010...000000...", "..........", fun _ _ => run (opMoveD .long · .d)⟩,
  ⟨"move", 32, "0010...000001...", "..........", fun _ _ => run (opMoveD .long · .a)⟩,
  ⟨"move", 32, "0010...000......", "A+-DXWLdxI", fun _ e => run (opMoveD .long · (.mode e))⟩,
  ⟨"move", 32, "0010...010000...", "..........", fun _ _ => run (opMove .long · .ai .d)⟩,
  ⟨"move", 32, "0010...010001...", "..........", fun _ _ => run (opMove .long · .ai .a)⟩,
  ⟨"move", 32, "0010...010......", "A+-DXWLdxI", fun _ e => run (opMove .long · .ai (.mode e))⟩,
  ⟨"move", 32, "0010...011000...", "..........", fun _ _ => run (opMove .long · .pi .d)⟩,
  ⟨"move", 32, "0010...011001...", "..........", fun _ _ => run (opMove .long · .pi .a)⟩,
  ⟨"move", 32, "0010...011......", "A+-DXWLdxI", fun _ e => run (opMove .long · .pi (.mode e))⟩,
  ⟨"move", 32, "0010...100000...", "..........", fun _ _ => run (opMove .long · .pd .d)⟩,
  ⟨"move", 32, "0010...100001...", "..........", fun _ _ => run (opMove .long · .pd .a)⟩,
  ⟨"move", 32, "0010...100......", "A+-DXWLdxI", fun _ e => run (opMove .long · .pd (.mode e))⟩,
  ⟨"move", 32, "0010...101000...", "..........", fun _ _ => run (opMove .long · .di .d)⟩,
  ⟨"move", 32, "0010...101001...", "..........", fun _ _ => run (opMove .long · .di .a)⟩,
  ⟨"move", 32, "0010...101......", "A+-DXWLdxI", fun _ e => run (opMove .long · .di (.mode e))⟩,
  ⟨"move", 32, "0010...110000...", "..........", fun _ _ => run (opMove .long · .ix .d)⟩,
  ⟨"move", 32, "0010...110001...", "..........", fun _ _ => run (opMove .long · .ix .a)⟩,
  ⟨"move", 32, "0010...110......", "A+-DXWLdxI", fun _ e => run (opMove .long · .ix (.mode e))⟩,
  ⟨"move", 32, "0010000111000...", "..........", fun _ _ => run (opMove .long · .aw .d)⟩,
  ⟨"move", 32, "0010000111001...", "..........", fun _ _ => run (opMove .long · .aw .a)⟩,
  ⟨"move", 32, "0010000111......", "A+-DXWLdxI", fun _ e => run (opMove .long · .aw (.mode e))⟩,
  ⟨"move", 32, "0010001111000...", "..........", fun _ _ => run (opMove .long · .al .d)⟩,
  ⟨"move", 32, "0010001111001...", "..........", fun _ _ => run (opMove .long · .al .a)⟩,
  ⟨"move", 32, "0010001111......", "A+-DXWLdxI", fun _ e => run (opMove .long · .al (.mode e))⟩,
  ⟨"movea", 16, "0011...001000...", "..........", fun _ _ => run (opMovea .word · .d)⟩,
  ⟨"movea", 16, "0011...001001...", "..........", fun _ _ => run (opMovea .word · .a)⟩,
  ⟨"movea", 16, "0011...001......", "A+-DXWLdxI", fun _ e => run (opMovea .word · (.mode e))⟩,
  ⟨"movea", 32, "0010...001000...", "..........", fun _ _ => run (opMovea .long · .d)⟩,
  ⟨"movea", 32, "0010...001001...", "..........", fun _ _ => run (opMovea .long · .a)⟩,
  ⟨"movea", 32, "0010...001......", "A+-DXWLdxI", fun _ e => run (opMovea .long · (.mode e))⟩,
  ⟨"move", 16, "0100001011000...", "..........", fun _ _ => run exceptionIllegal⟩,
  ⟨"move", 16, "0100001011......", "A+-DXWL...", fun _ _ => run exceptionIllegal⟩,
  ⟨"move", 16, "0100010011000...", "..........", fun _ _ => run (opMoveToc · .d)⟩,
  ⟨"move", 16, "0100010011......", "A+-DXWLdxI", fun _ e => run (opMoveToc · (.mode e))⟩,
  ⟨"move", 16, "0100000011000...", "..........", fun _ _ => run opMoveFrsD⟩,
  ⟨"move", 16, "0100000011......", "A+-DXWL...", fun _ e => run (opMoveFrs · e)⟩,
  ⟨"move", 16, "0100011011000...", "..........", fun _ _ => run (opMoveTos · .d)⟩,
  ⟨"move", 16, "0100011011......", "A+-DXWLdxI", fun _ e => run (opMoveTos · (.mode e))⟩,
  ⟨"move", 32, "0100111001101...", "..........", fun _ _ => run opMoveFru⟩,
  ⟨"move", 32, "0100111001100...", "..........", fun _ _ => run opMoveTou⟩,
  ⟨"movec", 32, "0100111001111010", "..........", fun _ _ => run exceptionIllegal⟩,
  ⟨"movec", 32, "0100111001111011", "..........", fun _ _ => run exceptionIllegal⟩,
  ⟨"movem", 16, "0100100010100...", "..........", fun _ _ => run (opMovemRePd .word)⟩,
  ⟨"movem", 16, "0100100010......", "A..DXWL...", fun _ e => run (opMovemRe .word · e)⟩,
  ⟨"movem", 32, "0100100011100...", "..........", fun _ _ => run (opMovemRePd .long)⟩,
  ⟨"movem", 32, "0100100011......", "A..DXWL...", fun _ e => run (opMovemRe .long · e)⟩,
  ⟨"movem", 16, "0100110010011...", "..........", fun _ _ => run (opMovemErPi .word)⟩,
  ⟨"movem", 16, "0100110010111010", "..........", fun _ _ => run (opMovemEr .word · .pcdi)⟩,
  ⟨"movem", 16, "0100110010111011", "..........", fun _ _ => run (opMovemEr .word · .pcix)⟩,
  ⟨"movem", 16, "0100110010......", "A..DXWL...", fun _ e => run (opMovemEr .word · e)⟩,
  ⟨"movem", 32, "0100110011011...", "..........", fun _ _ => run (opMovemErPi .long)⟩,
  ⟨"movem", 32, "0100110011111010", "..........", fun _ _ => run (opMovemEr .long · .pcdi)⟩,
  ⟨"movem", 32, "0100110011111011", "..........", fun _ _ => run (opMovemEr .long · .pcix)⟩,
  ⟨"movem", 32, "0100110011......", "A..DXWL...", fun _ e => run (opMovemEr .long · e)⟩,
  ⟨"movep", 16, "0000...100001...", "..........", fun _ _ => run (opMovepEr .word)⟩,
  ⟨"movep", 32, "0000...101001...", "..........", fun _ _ => run (opMovepEr .long)⟩,
  ⟨"movep", 16, "0000...110001...", "..........", fun _ _ => run (opMovepRe .word)⟩,
  ⟨"movep", 32, "0000...111001...", "..........", fun _ _ => run (opMovepRe .long)⟩,
  ⟨"moveq", 32, "0111...0........", "..........", fun _ _ => run opMoveq⟩,
  ⟨"moves", 8, "0000111000......", "A+-DXWL...", fun _ _ => run exceptionIllegal⟩,
  ⟨"moves", 16, "0000111001......", "A+-DXWL...", fun _ _ => run exceptionIllegal⟩,
  ⟨"moves", 32, "0000111010......", "A+-DXWL...", fun _ _ => run exceptionIllegal⟩,
  ⟨"muls", 16, "1100...111000...", "..........", fun _ _ => run (opMuls · .d)⟩,
  ⟨"muls", 16, "1100...111......", "A+-DXWLdxI", fun _ e => run (opMuls · (.mode e))⟩,
  ⟨"mulu", 16, "1100...011000...", "..........", fun _ _ => run (opMulu · .d)⟩,
  ⟨"mulu", 16, "1100...011......", "A+-DXWLdxI", fun _ e => run (opMulu · (.mode e))⟩,
  ⟨"mull", 32, "0100110000000...", "..........", fun _ _ => run exceptionIllegal⟩,
  ⟨"mull", 32, "0100110000......", "A+-DXWLdxI", fun _ _ => run exceptionIllegal⟩]

def opcodesNz : List OpcodeStruct := [
  ⟨"nbcd", 8, "0100100000000...", "..........", fun _ _ => run opNbcdD⟩,
  ⟨"nbcd", 8, "0100100000......", "A+-DXWL...", fun _ e => run (opNbcd · e)⟩,
  ⟨"neg", 8, "0100010000000...", "..........", fun _ _ => run (opNegD .byte)⟩,
  ⟨"neg", 8, "0100010000......", "A+-DXWL...", fun _ e => run (opNeg .byte · e)⟩,
  ⟨"neg", 16, "0100010001000...", "..........", fun _ _ => run (opNegD .word)⟩,
  ⟨"neg", 16, "0100010001......", "A+-DXWL...", fun _ e => run (opNeg .word · e)⟩,
  ⟨"neg", 32, "0100010010000...", "..........", fun _ _ => run (opNegD .long)⟩,
  ⟨"neg", 32, "0100010010......", "A+-DXWL...", fun _ e => run (opNeg .long · e)⟩,
  ⟨"negx", 8, "0100000000000...", "..........", fun _ _ => run (opNegxD .byte)⟩,
  ⟨"negx", 8, "0100000000......", "A+-DXWL...", fun _ e => run (opNegx .byte · e)⟩,
  ⟨"negx", 16, "0100000001000...", "..........", fun _ _ => run (opNegxD .word)⟩,
  ⟨"negx", 16, "0100000001......", "A+-DXWL...", fun _ e => run (opNegx .word · e)⟩,
  ⟨"negx", 32, "0100000010000...", "..........", fun _ _ => run (opNegxD .long)⟩,
  ⟨"negx", 32, "0100000010......", "A+-DXWL...", fun _ e => run (opNegx .long · e)⟩,
  ⟨"nop", 0, "0100111001110001", "..........", fun _ _ => run fun _ => pure ()⟩,
  ⟨"not", 8, "0100011000000...", "..........", fun _ _ => run (opNotD .byte)⟩,
  ⟨"not", 8, "0100011000......", "A+-DXWL...", fun _ e => run (opNot .byte · e)⟩,
  ⟨"not", 16, "0100011001000...", "..........", fun _ _ => run (opNotD .word)⟩,
  ⟨"not", 16, "0100011001......", "A+-DXWL...", fun _ e => run (opNot .word · e)⟩,
  ⟨"not", 32, "0100011010000...", "..........", fun _ _ => run (opNotD .long)⟩,
  ⟨"not", 32, "0100011010......", "A+-DXWL...", fun _ e => run (opNot .long · e)⟩,
  ⟨"or", 8, "1000...000000...", "..........", fun _ _ => run (opLogicEr .byte · .or .d)⟩,
  ⟨"or", 8, "1000...000......", "A+-DXWLdxI", fun _ e => run (opLogicEr .byte · .or (.mode e))⟩,
  ⟨"or", 16, "1000...001000...", "..........", fun _ _ => run (opLogicEr .word · .or .d)⟩,
  ⟨"or", 16, "1000...001......", "A+-DXWLdxI", fun _ e => run (opLogicEr .word · .or (.mode e))⟩,
  ⟨"or", 32, "1000...010000...", "..........", fun _ _ => run (opLogicEr .long · .or .d)⟩,
  ⟨"or", 32, "1000...010......", "A+-DXWLdxI", fun _ e => run (opLogicEr .long · .or (.mode e))⟩,
  ⟨"or", 8, "1000...100......", "A+-DXWL...", fun _ e => run (opLogicRe .byte · .or e)⟩,
  ⟨"or", 16, "1000...101......", "A+-DXWL...", fun _ e => run (opLogicRe .word · .or e)⟩,
  ⟨"or", 32, "1000...110......", "A+-DXWL...", fun _ e => run (opLogicRe .long · .or e)⟩,
  ⟨"ori", 16, "0000000000111100", "..........", fun _ _ => run fun _ => opLogiciToc .or⟩,
  ⟨"ori", 16, "0000000001111100", "..........", fun _ _ => run (opLogiciTos · .or)⟩,
  ⟨"ori", 8, "0000000000000...", "..........", fun _ _ => run (opLogiciD .byte · .or)⟩,
  ⟨"ori", 8, "0000000000......", "A+-DXWL...", fun _ e => run (opLogici .byte · .or e)⟩,
  ⟨"ori", 16, "0000000001000...", "..........", fun _ _ => run (opLogiciD .word · .or)⟩,
  ⟨"ori", 16, "0000000001......", "A+-DXWL...", fun _ e => run (opLogici .word · .or e)⟩,
  ⟨"ori", 32, "0000000010000...", "..........", fun _ _ => run (opLogiciD .long · .or)⟩,
  ⟨"ori", 32, "0000000010......", "A+-DXWL...", fun _ e => run (opLogici .long · .or e)⟩,
  ⟨"pack", 16, "1000...101000...", "..........", fun _ _ => run exceptionIllegal⟩,
  ⟨"pack", 16, "1000111101001...", "..........", fun _ _ => run exceptionIllegal⟩,
  ⟨"pack", 16, "1000...101001111", "..........", fun _ _ => run exceptionIllegal⟩,
  ⟨"pack", 16, "1000111101001111", "..........", fun _ _ => run exceptionIllegal⟩,
  ⟨"pack", 16, "1000...101001...", "..........", fun _ _ => run exceptionIllegal⟩,
  ⟨"pea", 32, "0100100001......", "A..DXWLdx.", fun _ e => run (opPea · e)⟩,
  ⟨"reset", 0, "0100111001110000", "..........", fun _ _ => run opReset⟩,
  ⟨"ror", 8, "1110...000011...", "..........", fun _ _ => run (opShiftS .byte · .ror)⟩,
  ⟨"ror", 16, "1110...001011...", "..........", fun _ _ => run (opShiftS .word · .ror)⟩,
  ⟨"ror", 32, "1110...010011...", "..........", fun _ _ => run (opShiftS .long · .ror)⟩,
  ⟨"ror", 8, "1110...000111...", "..........", fun _ _ => run (opShiftR .byte · .ror)⟩,
  ⟨"ror", 16, "1110...001111...", "..........", fun _ _ => run (opShiftR .word · .ror)⟩,
  ⟨"ror", 32, "1110...010111...", "..........", fun _ _ => run (opShiftR .long · .ror)⟩,
  ⟨"ror", 16, "1110011011......", "A+-DXWL...", fun _ e => run (opShiftMem · .ror e)⟩,
  ⟨"rol", 8, "1110...100011...", "..........", fun _ _ => run (opShiftS .byte · .rol)⟩,
  ⟨"rol", 16, "1110...101011...", "..........", fun _ _ => run (opShiftS .word · .rol)⟩,
  ⟨"rol", 32, "1110...110011...", "..........", fun _ _ => run (opShiftS .long · .rol)⟩,
  ⟨"rol", 8, "1110...100111...", "..........", fun _ _ => run (opShiftR .byte · .rol)⟩,
  ⟨"rol", 16, "1110...101111...", "..........", fun _ _ => run (opShiftR .word · .rol)⟩,
  ⟨"rol", 32, "1110...110111...", "..........", fun _ _ => run (opShiftR .long · .rol)⟩,
  ⟨"rol", 16, "1110011111......", "A+-DXWL...", fun _ e => run (opShiftMem · .rol e)⟩,
  ⟨"roxr", 8, "1110...000010...", "..........", fun _ _ => run (opShiftS .byte · .roxr)⟩,
  ⟨"roxr", 16, "1110...001010...", "..........", fun _ _ => run (opShiftS .word · .roxr)⟩,
  ⟨"roxr", 32, "1110...010010...", "..........", fun _ _ => run (opShiftS .long · .roxr)⟩,
  ⟨"roxr", 8, "1110...000110...", "..........", fun _ _ => run (opShiftR .byte · .roxr)⟩,
  ⟨"roxr", 16, "1110...001110...", "..........", fun _ _ => run (opShiftR .word · .roxr)⟩,
  ⟨"roxr", 32, "1110...010110...", "..........", fun _ _ => run (opShiftR .long · .roxr)⟩,
  ⟨"roxr", 16, "1110010011......", "A+-DXWL...", fun _ e => run (opShiftMem · .roxr e)⟩,
  ⟨"roxl", 8, "1110...100010...", "..........", fun _ _ => run (opShiftS .byte · .roxl)⟩,
  ⟨"roxl", 16, "1110...101010...", "..........", fun _ _ => run (opShiftS .word · .roxl)⟩,
  ⟨"roxl", 32, "1110...110010...", "..........", fun _ _ => run (opShiftS .long · .roxl)⟩,
  ⟨"roxl", 8, "1110...100110...", "..........", fun _ _ => run (opShiftR .byte · .roxl)⟩,
  ⟨"roxl", 16, "1110...101110...", "..........", fun _ _ => run (opShiftR .word · .roxl)⟩,
  ⟨"roxl", 32, "1110...110110...", "..........", fun _ _ => run (opShiftR .long · .roxl)⟩,
  ⟨"roxl", 16, "1110010111......", "A+-DXWL...", fun _ e => run (opShiftMem · .roxl e)⟩,
  ⟨"rtd", 32, "0100111001110100", "..........", fun _ _ => run exceptionIllegal⟩,
  ⟨"rte", 32, "0100111001110011", "..........", fun _ _ => run opRte⟩,
  ⟨"rtm", 32, "000001101100....", "..........", fun _ _ => run exceptionIllegal⟩,
  ⟨"rtr", 32, "0100111001110111", "..........", fun _ _ => run fun _ => opRtr⟩,
  ⟨"rts", 32, "0100111001110101", "..........", fun _ _ => run fun _ => opRts⟩,
  ⟨"sbcd", 8, "1000...100000...", "..........", fun _ _ => run opSbcdRr⟩,
  ⟨"sbcd", 8, "1000111100001...", "..........", fun _ _ => run (opSbcdMm · .pd .pd7)⟩,
  ⟨"sbcd", 8, "1000...100001111", "..........", fun _ _ => run (opSbcdMm · .pd7 .pd)⟩,
  ⟨"sbcd", 8, "1000111100001111", "..........", fun _ _ => run (opSbcdMm · .pd7 .pd7)⟩,
  ⟨"sbcd", 8, "1000...100001...", "..........", fun _ _ => run (opSbcdMm · .pd .pd)⟩,
  ⟨"st", 8, "0101000011000...", "..........", fun _ _ => run (opSccD · fun _ => true)⟩,
  ⟨"st", 8, "0101000011......", "A+-DXWL...", fun _ e => run (opScc · (fun _ => true) e)⟩,
  ⟨"sf", 8, "0101000111000...", "..........", fun _ _ => run (opSccD · fun _ => false)⟩,
  ⟨"sf", 8, "0101000111......", "A+-DXWL...", fun _ e => run (opScc · (fun _ => false) e)⟩,
  ⟨"scc", 8, "0101....11000...", "..........", fun k _ => run (opSccD · k.cond)⟩,
  ⟨"scc", 8, "0101....11......", "A+-DXWL...", fun k e => run (opScc · k.cond e)⟩,
  ⟨"stop", 0, "0100111001110010", "..........", fun _ _ => .stop opStop⟩,
  ⟨"sub", 8, "1001...000000...", "..........", fun _ _ => run (opSubEr .byte · .d)⟩,
  ⟨"sub", 8, "1001...000......", "A+-DXWLdxI", fun _ e => run (opSubEr .byte · (.mode e))⟩,
  ⟨"sub", 16, "1001...001000...", "..........", fun _ _ => run (opSubEr .word · .d)⟩,
  ⟨"sub", 16, "1001...001001...", "..........", fun _ _ => run (opSubEr .word · .a)⟩,
  ⟨"sub", 16, "1001...001......", "A+-DXWLdxI", fun _ e => run (opSubEr .word · (.mode e))⟩,
  ⟨"sub", 32, "1001...010000...", "..........", fun _ _ => run (opSubEr .long · .d)⟩,
  ⟨"sub", 32, "1001...010001...", "..........", fun _ _ => run (opSubEr .long · .a)⟩,
  ⟨"sub", 32, "1001...010......", "A+-DXWLdxI", fun _ e => run (opSubEr .long · (.mode e))⟩,
  ⟨"sub", 8, "1001...100......", "A+-DXWL...", fun _ e => run (opSubRe .byte · e)⟩,
  ⟨"sub", 16, "1001...101......", "A+-DXWL...", fun _ e => run (opSubRe .word · e)⟩,
  ⟨"sub", 32, "1001...110......", "A+-DXWL...", fun _ e => run (opSubRe .long · e)⟩,
  ⟨"suba", 16, "1001...011000...", "..........", fun _ _ => run (opSuba .word · .d)⟩,
  ⟨"suba", 16, "1001...011001...", "..........", fun _ _ => run (opSuba .word · .a)⟩,
  ⟨"suba", 16, "1001...011......", "A+-DXWLdxI", fun _ e => run (opSuba .word · (.mode e))⟩,
  ⟨"suba", 32, "1001...111000...", "..........", fun _ _ => run (opSuba .long · .d)⟩,
  ⟨"suba", 32, "1001...111001...", "..........", fun _ _ => run (opSuba .long · .a)⟩,
  ⟨"suba", 32, "1001...111......", "A+-DXWLdxI", fun _ e => run (opSuba .long · (.mode e))⟩,
  ⟨"subi", 8, "0000010000000...", "..........", fun _ _ => run (opSubiD .byte)⟩,
  ⟨"subi", 8, "0000010000......", "A+-DXWL...", fun _ e => run (opSubi .byte · e)⟩,
  ⟨"subi", 16, "0000010001000...", "..........", fun _ _ => run (opSubiD .word)⟩,
  ⟨"subi", 16, "0000010001......", "A+-DXWL...", fun _ e => run (opSubi .word · e)⟩,
  ⟨"subi", 32, "0000010010000...", "..........", fun _ _ => run (opSubiD .long)⟩,
  ⟨"subi", 32, "0000010010......", "A+-DXWL...", fun _ e => run (opSubi .long · e)⟩,
  ⟨"subq", 8, "0101...100000...", "..........", fun _ _ => run (opSubqD .byte)⟩,
  ⟨"subq", 8, "0101...100......", "A+-DXWL...", fun _ e => run (opSubq .byte · e)⟩,
  ⟨"subq", 16, "0101...101000...", "..........", fun _ _ => run (opSubqD .word)⟩,
  ⟨"subq", 16, "0101...101001...", "..........", fun _ _ => run opSubqA⟩,
  ⟨"subq", 16, "0101...101......", "A+-DXWL...", fun _ e => run (opSubq .word · e)⟩,
  ⟨"subq", 32, "0101...110000...", "..........", fun _ _ => run (opSubqD .long)⟩,
  ⟨"subq", 32, "0101...110001...", "..........", fun _ _ => run opSubqA⟩,
  ⟨"subq", 32, "0101...110......", "A+-DXWL...", fun _ e => run (opSubq .long · e)⟩,
  ⟨"subx", 8, "1001...100000...", "..........", fun _ _ => run (opSubxRr .byte)⟩,
  ⟨"subx", 16, "1001...101000...", "..........", fun _ _ => run (opSubxRr .word)⟩,
  ⟨"subx", 32, "1001...110000...", "..........", fun _ _ => run (opSubxRr .long)⟩,
  ⟨"subx", 8, "1001111100001...", "..........", fun _ _ => run (opSubxMm .byte · .pd .pd7)⟩,
  ⟨"subx", 8, "1001...100001111", "..........", fun _ _ => run (opSubxMm .byte · .pd7 .pd)⟩,
  ⟨"subx", 8, "1001111100001111", "..........", fun _ _ => run (opSubxMm .byte · .pd7 .pd7)⟩,
  ⟨"subx", 8, "1001...100001...", "..........", fun _ _ => run (opSubxMm .byte · .pd .pd)⟩,
  ⟨"subx", 16, "1001...101001...", "..........", fun _ _ => run (opSubxMm .word · .pd .pd)⟩,
  ⟨"subx", 32, "1001...110001...", "..........", fun _ _ => run (opSubxMm .long · .pd .pd)⟩,
  ⟨"swap", 32, "0100100001000...", "..........", fun _ _ => run opSwap⟩,
  ⟨"tas", 8, "0100101011000...", "..........", fun _ _ => run opTasD⟩,
  ⟨"tas", 8, "0100101011......", "A+-DXWL...", fun _ e => run (opTas · e)⟩,
  ⟨"trap", 0, "010011100100....", "..........", fun _ _ => .trap opTrap⟩,
  ⟨"trapt", 0, "0101000011111100", "..........", fun _ _ => run exceptionIllegal⟩,
  ⟨"trapt", 16, "0101000011111010", "..........", fun _ _ => run exceptionIllegal⟩,
  ⟨"trapt", 32, "0101000011111011", "..........", fun _ _ => run exceptionIllegal⟩,
  ⟨"trapf", 0, "0101000111111100", "..........", fun _ _ => run exceptionIllegal⟩,
  ⟨"trapf", 16, "0101000111111010", "..........", fun _ _ => run exceptionIllegal⟩,
  ⟨"trapf", 32, "0101000111111011", "..........", fun _ _ => run exceptionIllegal⟩,
  ⟨"trapcc", 0, "0101....11111100", "..........", fun _ _ => run exceptionIllegal⟩,
  ⟨"trapcc", 16, "0101....11111010", "..........", fun _ _ => run exceptionIllegal⟩,
  ⟨"trapcc", 32, "0101....11111011", "..........", fun _ _ => run exceptionIllegal⟩,
  ⟨"trapv", 0, "0100111001110110", "..........", fun _ _ => run fun _ => opTrapv⟩,
  ⟨"tst", 8, "0100101000000...", "..........", fun _ _ => run (opTst .byte · .d)⟩,
  ⟨"tst", 8, "0100101000......", "A+-DXWL...", fun _ e => run (opTst .byte · (.mode e))⟩,
  ⟨"tst", 8, "0100101000111010", "..........", fun _ _ => run exceptionIllegal⟩,
  ⟨"tst", 8, "0100101000111011", "..........", fun _ _ => run exceptionIllegal⟩,
  ⟨"tst", 8, "0100101000111100", "..........", fun _ _ => run exceptionIllegal⟩,
  ⟨"tst", 16, "0100101001000...", "..........", fun _ _ => run (opTst .word · .d)⟩,
  ⟨"tst", 16, "0100101001001...", "..........", fun _ _ => run exceptionIllegal⟩,
  ⟨"tst", 16, "0100101001......", "A+-DXWL...", fun _ e => run (opTst .word · (.mode e))⟩,
  ⟨"tst", 16, "0100101001111010", "..........", fun _ _ => run exceptionIllegal⟩,
  ⟨"tst", 16, "0100101001111011", "..........", fun _ _ => run exceptionIllegal⟩,
  ⟨"tst", 16, "0100101001111100", "..........", fun _ _ => run exceptionIllegal⟩,
  ⟨"tst", 32, "0100101010000...", "..........", fun _ _ => run (opTst .long · .d)⟩,
  ⟨"tst", 32, "0100101010001...", "..........", fun _ _ => run exceptionIllegal⟩,
  ⟨"tst", 32, "0100101010......", "A+-DXWL...", fun _ e => run (opTst .long · (.mode e))⟩,
  ⟨"tst", 32, "0100101010111010", "..........", fun _ _ => run exceptionIllegal⟩,
  ⟨"tst", 32, "0100101010111011", "..........", fun _ _ => run exceptionIllegal⟩,
  ⟨"tst", 32, "0100101010111100", "..........", fun _ _ => run exceptionIllegal⟩,
  ⟨"unlk", 32, "0100111001011111", "..........", fun _ _ => run fun _ => opUnlkA7⟩,
  ⟨"unlk", 32, "0100111001011...", "..........", fun _ _ => run opUnlk⟩,
  ⟨"unpk", 16, "1000...110000...", "..........", fun _ _ => run exceptionIllegal⟩,
  ⟨"unpk", 16, "1000111110001...", "..........", fun _ _ => run exceptionIllegal⟩,
  ⟨"unpk", 16, "1000...110001111", "..........", fun _ _ => run exceptionIllegal⟩,
  ⟨"unpk", 16, "1000111110001111", "..........", fun _ _ => run exceptionIllegal⟩,
  ⟨"unpk", 16, "1000...110001...", "..........", fun _ _ => run exceptionIllegal⟩]

def opcodeInputTable : List OpcodeStruct := opcodesAc ++ opcodesDm ++ opcodesNz

end Tosemu.M68k
