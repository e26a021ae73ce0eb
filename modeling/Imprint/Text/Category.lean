set_option autoImplicit false

/-!
# General categories of characters

Every character has one general category.  The assignment is stored as runs in code point order,
each run a letter for the category followed by its length, and read by one fold.  The character
classes that the library tests (letters, digits, printable characters, name characters) are derived
from it, each with the short list of characters that its own standard adds or leaves out.
-/

namespace Imprint.Text

/-- The general category of a character. -/
inductive Category where
  | uppercaseLetter
  | lowercaseLetter
  | titlecaseLetter
  | modifierLetter
  | otherLetter
  | nonspacingMark
  | spacingMark
  | enclosingMark
  | decimalNumber
  | letterNumber
  | otherNumber
  | connectorPunctuation
  | dashPunctuation
  | openPunctuation
  | closePunctuation
  | initialPunctuation
  | finalPunctuation
  | otherPunctuation
  | mathSymbol
  | currencySymbol
  | modifierSymbol
  | otherSymbol
  | spaceSeparator
  | lineSeparator
  | paragraphSeparator
  | control
  | format
  | surrogate
  | privateUse
  | unassigned
deriving DecidableEq, Repr, Inhabited

namespace Category

/-- The letter that stands for each category in the stored runs, in the order of the type. -/
def ofLetter? : Char → Option Category
  | 'A' => some .uppercaseLetter
  | 'B' => some .lowercaseLetter
  | 'C' => some .titlecaseLetter
  | 'D' => some .modifierLetter
  | 'E' => some .otherLetter
  | 'F' => some .nonspacingMark
  | 'G' => some .spacingMark
  | 'H' => some .enclosingMark
  | 'I' => some .decimalNumber
  | 'J' => some .letterNumber
  | 'K' => some .otherNumber
  | 'L' => some .connectorPunctuation
  | 'M' => some .dashPunctuation
  | 'N' => some .openPunctuation
  | 'O' => some .closePunctuation
  | 'P' => some .initialPunctuation
  | 'Q' => some .finalPunctuation
  | 'R' => some .otherPunctuation
  | 'S' => some .mathSymbol
  | 'T' => some .currencySymbol
  | 'U' => some .modifierSymbol
  | 'V' => some .otherSymbol
  | 'W' => some .spaceSeparator
  | 'X' => some .lineSeparator
  | 'Y' => some .paragraphSeparator
  | 'Z' => some .control
  | 'a' => some .format
  | 'b' => some .surrogate
  | 'c' => some .privateUse
  | 'd' => some .unassigned
  | _ => none

/-- Letters of every kind. -/
def isLetter : Category → Bool
  | .uppercaseLetter | .lowercaseLetter | .titlecaseLetter | .modifierLetter | .otherLetter => true
  | _ => false

/-- Numbers of every kind. -/
def isNumber : Category → Bool
  | .decimalNumber | .letterNumber | .otherNumber => true
  | _ => false

/-- Categories without a glyph of their own. -/
def isInvisible : Category → Bool
  | .spaceSeparator | .lineSeparator | .paragraphSeparator | .control | .format | .surrogate
  | .privateUse | .unassigned => true
  | _ => false

end Category

/-- The runs of equal category from the first code point to the last. -/
def categoryRuns : String :=
  "Z32WR3TR3NORSRMR2I10R2S3R2A26NROULUB26NSOSZ33WRT4VRUVEPSaVUVSK2UBR2UKEQK3RA23SA7B24SB8ABABAB" ++
   "ABABABABABABABABABABABABABABABABABABABABABABABABAB2ABABABABABABABAB2ABABABABABABABABABABABAB" ++
   "ABABABABABABABABABABABA2BABAB3A2BABA2BA3B2A4BA2BA3B3A2BA2BABABA2BAB2ABA2BA3BABA2B2EAB3E4ACBA" ++
   "CBACBABABABABABABABAB2ABABABABABABABABAB2ACBABA3BABABABABABABABABABABABABABABABABABABABABABA" ++
   "BABABABABABABAB7A2BA2B2ABA4BABABABAB69EB27D18U4D12U14D5U7DUDU17F112ABABDUABd2DB3RAd4U2ARA3dA" ++
   "dA2BA17dA9B35AB2A3B3ABABABABABABABABABABABAB5ABSABA2B2A51B48ABABABABABABABABABABABABABABABAB" ++
   "ABVF5H2ABABABABABABABABABABABABABABABABABABABABABABABABABABABA2BABABABABABAB2ABABABABABABABA" ++
   "BABABABABABABABABABABABABABABABABABABABABABABABABABABABABABABABABABABABABABABABABdA38d2DR6B4" ++
   "1RMd2V2TdF45MFRF2RF2RFd8E27d4E4R2d11a6S3R2TR2V2F11RaR3E32DE10F21I10R4E2FE99REF7aVF6D2F2VF4E2" ++
   "I10E3V2ER14daEFE30F27d2E89F11Ed14I10E33F9D2VR3Dd2FT2E22F4DF9DF3DF5d2R15dE25F3d2RdE11d5E24UE6" ++
   "da2d6F8E41DF24aF32GE54FGFEG3F8G4FG2EF7E10F2R2I10RDE15FG2dE8d2E2d2E22dE7dEd3E4d2FEG3F4d2G2d2G" ++
   "2FEd8Gd4E2dE3F2d2I10E2T2K6VTERFd2F2GdE6d4E2d2E22dE7dE2dE2dE2d2FdG3F2d4F2d2F3d3Fd7E4dEd7I10F2" ++
   "E3FRd10F2GdE9dE3dE22dE7dE2dE5d2FEG3F5dF2GdG2Fd2Ed15E2F2d2I10RTd7EF6dFG2dE8d2E2d2E22dE7dE2dE5" ++
   "d2FEGFGF4d2G2d2G2Fd7F2Gd4E2dE3F2d2I10VEK6d10FEdE6d3E3dE4d3E2dEdE2d3E2d3E3d3E12d4G2FG2d3G3dG3" ++
   "Fd2Ed6Gd14I10K3V6TVd5FG3FE8dE3dE23dE16d2FEF3G4dF3dF4d7F2dE3d2Ed2E2F2d2I10d7RK7VEFG2RE8dE3dE2" ++
   "3dE10dE5d2FEGFG5dFG2dG2F2d7G2d6E2dE2F2d2I10dE2d13F2G2E9dE3dE41F2EG3F4dG3dG3FEVd4E3GK7E3F2d2I" ++
   "10K9VE6dFG2dE18d3E24dE9dEd2E7d3Fd4G3F3dFdG8d6I10d2G2Rd12E48FE2F7d4TE6DF8RI10R2d37E2dEdE5dE24" ++
   "dEdE10FE2F9Ed2E5dDdF6d2I10d2E4d32EV3R15VRV3F2V6I10K10VFVFVFNONOG2E8dE36d4F14GF5RF2E5F11dF36d" ++
   "V8FV6dV2R5V4R2d37E43G2F4GF6GF2G2F2EI10R6E6G2F2E4F3EG3E2G7E3F4E13FG2F2G6FEGI10G3FV2A38dAd5Ad2" ++
   "B43RDB3E329dE4d2E7dEdE4d2E41dE4d2E33dE4d2E7dEdE4d2E15dE57dE4d2E67d2F3R9K20d3E16V10d6A86d2B6d" ++
   "2ME620VRE17WE26NOd3E75R3J3E8d7E18F3Gd9E19F2GR2d9E18F2d12E13dE3dF2d12E52F2GF7G8FG2F11R3DR3TEF" ++
   "d2I10d6K10d6R6MR4F3aFI10d6E35DE53d7E5F2E34FEd5E70d10E31dF3G4F2G3d4G2FG6F3d4Vd3R2I10E30d2E5d1" ++
   "1E44d4E26d6I10Kd3V34E23F2G2Fd2R2E53GFGF7dFGFG2F8G6F10d2FI10d6I10d6R7DR6d2F14HF16d49F4GE47FGF" ++
   "5GFG5FG2E8d3I10R7V10F9V9R2dF2GE30GF4G2F2GF3E2I10E44FGF2G3FGF3G2d8R4E36G8F8G2F2d3R5I10d3E3I10" ++
   "E30D6R2B9d7A43d2A3R8d8F3RF13GF7E4FE6FE2GF2Ed5B44D63B13DB34D37F64ABABABABABABABABABABABABABAB" ++
   "ABABABABABABABABABABABABABABABABABABABABABABABABABABABABABABABABABABABABABABABABABABABABABAB" ++
   "ABABABABABABABABABABABABABABAB9ABABABABABABABABABABABABABABABABABABABABABABABABABABABABABABA" ++
   "BABABABABABABABABABABABABABABABABABAB9A8B6d2A6d2B8A8B8A8B6d2A6d2B8dAdAdAdAB8A8B14d2B8C8B8C8B" ++
   "8C8B5dB2A4CUBU3B3dB2A4CU3B4d2B2A4dU3B8A5U3d2B3dB2A4CU2dW11a5M6R2PQNP2QNPR8XYa5WR9PQR4L2R3SNO" ++
   "R11SRLR10Wa5da10KDd2K6S3NODK10S3NOdD13d3T33d15F13H4FH3F12d15V2AV4AV2BA3B2A3BVAV2SA5V6AVAVAVA" ++
   "4VBA4BE4BV2B2A2S5AB4VSV2BVK16J35ABJ4KV2d4S5V5S2V4SV2SV2SV7SV31S2V2SVSV31S268V8NONOV20S2V7NOV" ++
   "81SV30S25V40S6V69d25V11d21K60V78K22V183SV9SV54S8V111SV248NONONONONONONOK30V44S5NOS31NONONONO" ++
   "NOS16V256S131NONONONONONONONONONONOS63NONOS32NOS258V48S21V2S6V39d2V32dV105A48B48ABA3B2ABABAB" ++
   "A4BAB2AB6D2A3BABABABABABABABABABABABABABABABABABABABABABABABABABABABABABABABABABABABABABABAB" ++
   "ABABABABABABABABABAB2V6ABABF3ABd5R4KR2B38dBd5Bd2E56d7DRd14FE23d9E7dE7dE7dE7dE7dE7dE7dE7dF32R" ++
   "2PQPQR3PQRPQR9MR2MRPQR2PQNONONONOR5DR10M2R4MRNR13V2R3NONONONOMd34V26dV89d12V214d26V12d4WR3VD" ++
   "EJNONONONONOV2NONONONOMNO2VJ9F4G2MD5V2J3DERV2dE86d2F2U2D2EME90RD3Ed5E43dE94dV2K4V10E32V36d12" ++
   "E16V31dK10V30K8VK15V32K10V39K15V320E6592V64E21013DE1143d3V55d9E40D6R2E268DR3E16I10E2d20ABABA" ++
   "BABABABABABABABABABABABABABABABABABABABABEFH3RF10RDABABABABABABABABABABABABABABD2F2E70J10F2R" ++
   "6d8U23D9U2ABABABABABABAB3ABABABABABABABABABABABABABABABABABABABABABABABABABABABABABABABDB8AB" ++
   "ABA2BABABABABDU2ABABEABAB3ABABABABABABABABABABA5BA5BABABABABABABABA4BABd5ABdBdBABABd24D3ABED" ++
   "2BE7FE3FE4FE23G2F2GV4Fd3K6V2TVd6E52R4d8G2E50G16F2d8R2I10d6F18E6R3ERE2FI10E28F8R2E23F11G2d11R" ++
   "E29d3F3GE47FG2F4G2F2G3R13dDI10d4R2E5FDE9I10E5dE41F6G2F2G2F2d9E3FE8FGd2I10d2R4E16DE6V3EGFGE50" ++
   "FEF3E2F2E5F2EFEd24E2DR2E11GF2G2R2ED2GFd10E6d2E6d2E6d9E7dE7dB43UD4B9DU2d4B80E35G2FG2FG2RGFd2I" ++
   "10d6E11172d12E23d4E49d4b2048c6400E366d2E106d38B7d12B5d5EFE10SE13dE5dEdE2dE2dE108U17d16E363ON" ++
   "V16E64d2E54d7Vd32E12TV3F16R7NORd6F16RM2L2NONONONONONONONOR2NOR4L3R3dR4MNONONOR3SMS3dRTR2d4E5" ++
   "dE135d2adR3TR3NORSRMR2I10R2S3R2A26NROULUB26NSOSNORNOR2E10DE45D2E31d3E6d2E6d2E6d2E3d3T2SUVT2d" ++
   "VS4V2d10a3V2d2E12dE26dE19dE2dE15d2E14d34E123d5R3d4K45d3V9J53K4V17K2V3dV13d3Vd47V45Fd130E29d3" ++
   "E49d15FK27d4E32K4d9E20JE8Jd5E38F5d5E30dRE36d4E8RJ5d42A40B40E78d2I10d6A36d4B36d4E40d8E52d11RA" ++
   "11dA15dA7dA2dB11dB15dB7dB2d67E311d9E22d10E8d24D6dD42dD9d69E6d2EdE44dE2d3Ed2E23dRK8E23V2K7E31" ++
   "d8K9d48E19dE2d5K5E22K6d3RE26d5Rd64E56d4K2E2K16d2K46EF3dF2d5F4E4dE3dE29d2F3d4FK9d7R9d7E29K2RE" ++
   "29K3d32E8VE28F2d4K5R7d9E54d3R7E22d2K8E19d5K8E18d7R4d12K7d80E73d55A51d13B51d7K6E36F4d8I10d294" ++
   "K31dE42dF2Md2E2d78E29K10Ed8E22F11K4R5d22E18F4R4d38E21K7d20E23d9GFGE53F15R7d4K20I10FE2F2Ed9F3" ++
   "GE45G3F4G2F2R2aR4Fd10ad2E25d7I10d6F3E36F5GF8dI10R4EG2Ed8E35FR2Ed9F2GE48G3F9G2E4R4F4RGFI10ERE" ++
   "R3dK20d11E18dE25G3F3G2FGF2R6Fd65E7dEdE4dE15dE10Rd6E47FG3F8d5I10d6F2G2dE8d2E2d2E22dE7dE2dE5dF" ++
   "2EG2FG4d2G2d2G3d2Ed6Gd5E5G2d2F7d3F5d139E53G3F8G2F3GFE4R5I10R2dRFE3d30E48G3F6GFG4F2GF2E2REd8I" ++
   "10d166E47G3F4d2G4F2GF2R23E4F2d34E48G3F8G2FGF2R3Ed11I10d6R13d19E43FGFG2F6GFERd6I10d54E27d2F3G" ++
   "2F4GF5d4I10K2R3VE7d185E44G3F9GF2Rd100A32B32I10K9d12E8d2Ed2E8dE2dE24G6dG2d2F2GFEGEGFR3d9I10d7" ++
   "0E8d2E39G3F4d2F2G4FEREGd27EF10E40F6GEF4R8Fd8EF6G2F3E46F13GF2R3ER5d13E73d263E9dE37GF7dF6GFER5" ++
   "d10I10K19d3R2E30d2F22dGF7GF2GF2d73E7dE2dE38F6d3FdF2dF7EFd8I10d6E6dE2dE32G5dF2dG2FGFEd7I10d31" ++
   "0E19F2G2R2d183Ed15K21V8T4V17d13RE922d102J111dR5d11E196d2636E97R2d13E1071da9d4039E583d8633E56" ++
   "9d7E31dI10d4R2E79dI10d6E30d2F5Rd10E48F7R5V4D4RVd10I10dK7dE21d5E19d688A32B32K23R4d101E75d4FEG" ++
   "55d7F4D13d64D2RDFd11G2d14E6136d8E1238d42E9d8935D4dD7dD2dE291d45E3d17E4d8E396d2308E107d5E13d3" ++
   "E9d7E10d2VF2Ra4d4700F46d2F23d9V116d60V246d10V39d2V60G2F3V3G6a8F8V2F7V30F4V61d21V66F3Vd154K20" ++
   "d12V87d9K25d135A26B26A26B7dB18A26B26AdA2d2Ad2A2d2A4dA8B4dBdB7dB11A26B26A2dA4d2A8dA7dB26A2dA4" ++
   "dA5dAd3A7dB26A26B26A26B26A26B26A26B26A26B26A26B28d2A25SB25SB6A25SB25SB6A25SB25SB6A25SB25SB6A" ++
   "25SB25SB6ABd2I50V512F55V4F50V8FV14FV2R5d15F5dF15d1104B10EB20d225F7dF17d2F7dF2dF5d213E45d3F7D" ++
   "7d2I10d4EVd320E30Fd17E44F4I10d5Td1248E7dE4dE2dE15dE197d2K9F7d41A34B34F7Dd4I10d4R2d785K59VK3T" ++
   "K4d76K45VK15d194E4dE27dE2dEd2EdE10dE4dEdEd6Ed4EdEdEdE3dE2dEd2EdEdEdEdEdE2dEd2E4dE7dE4dE4dEdE" ++
   "10dE17d5E3dE5dE17d52S2d270V44d4V100d12V15d2V15dV15dV37d10K13V161d56V29d13V44d4V9d7V2d14V6d15" ++
   "4V251U5V728d5V16d3V13d3V116d12V89d7V12d4Vd15V12d4V56d8V10d6V40d8V30d2V2d78V340d12V14d2V5d3V5" ++
   "d3V7d9V29d3V11d5V6d10V10d6V8d8V7d9V147dV55d37I10d1030E42720d32E4153d7E222d2E5762d14E7473d310" ++
   "3E542d1506E4939d715958ad30a96d128F240d65040c65534d2c65534d2"

/-- State of the fold over the stored runs: the runs closed so far with their first code points, the
code point at which the open run starts, its category, and the digits of its length read so far. -/
structure RunReader where
  closed : Array (Nat × Category)
  start : Nat
  category : Category
  length : Nat

/-- A digit extends the length of the open run; a letter closes that run and opens the next.  A run
without digits has length one. -/
def RunReader.step (reader : RunReader) (letter : Char) : RunReader :=
  match Category.ofLetter? letter with
  | some next =>
      { closed := reader.closed.push (reader.start, reader.category)
        start := reader.start + (if reader.length = 0 then 1 else reader.length)
        category := next
        length := 0 }
  | none => { reader with length := 10 * reader.length + (letter.toNat - '0'.toNat) }

/-- First code point and category of every run, in code point order. -/
def categoryStarts : Array (Nat × Category) :=
  match categoryRuns.toList with
  | [] => #[]
  | first :: rest =>
      let opening : RunReader := ⟨#[], 0, (Category.ofLetter? first).getD .unassigned, 0⟩
      let reader := rest.foldl RunReader.step opening
      reader.closed.push (reader.start, reader.category)

/-- The last entry at or below a code point between two positions of a table sorted by its first
components. -/
def lastStartAtMost {α : Type} [Inhabited α] (table : Array (Nat × α)) (point : Nat) :
    Nat → Nat → Nat → Nat
  | 0, low, _ => low
  | fuel + 1, low, high =>
      if high ≤ low + 1 then low
      else
        let middle := (low + high) / 2
        match table[middle]? with
        | some (start, _) =>
            if start ≤ point then lastStartAtMost table point fuel middle high
            else lastStartAtMost table point fuel low middle
        | none => low

/-- The signs of the basic Latin alphabet whose category is another one than that of most signs. -/
def basicSigns : List (Char × Category) :=
  [(' ', .spaceSeparator), ('$', .currencySymbol), ('(', .openPunctuation), (')', .closePunctuation),
    ('+', .mathSymbol), ('-', .dashPunctuation), ('<', .mathSymbol), ('=', .mathSymbol),
    ('>', .mathSymbol), ('[', .openPunctuation), (']', .closePunctuation), ('^', .modifierSymbol),
    ('_', .connectorPunctuation), ('\x60', .modifierSymbol), ('\x7b', .openPunctuation),
    ('|', .mathSymbol), ('\x7d', .closePunctuation), ('~', .mathSymbol)]

/-- The general category of a character of the basic Latin alphabet. -/
def basicCategory (letter : Char) : Category :=
  if 'a' ≤ letter && letter ≤ 'z' then .lowercaseLetter
  else if 'A' ≤ letter && letter ≤ 'Z' then .uppercaseLetter
  else if '0' ≤ letter && letter ≤ '9' then .decimalNumber
  else if letter.toNat < 0x20 || letter.toNat = 0x7f then .control
  else (basicSigns.lookup letter).getD .otherPunctuation

/-- The general category of a character, looked up in the stored runs. -/
def storedCategory (letter : Char) : Category :=
  let table := categoryStarts
  match table[lastStartAtMost table letter.toNat table.size 0 table.size]? with
  | some (_, found) => found
  | none => .unassigned

/-- The general category of a character.  The basic Latin alphabet is decided without the table. -/
def category (letter : Char) : Category :=
  if letter.toNat < 0x80 then basicCategory letter else storedCategory letter

/-- Membership of a character in a list of closed ranges of code points. -/
def inRanges (ranges : List (Nat × Nat)) (letter : Char) : Bool :=
  ranges.any fun (first, last) => first ≤ letter.toNat && letter.toNat ≤ last

/-- Blank characters: the separators of every kind and the control characters that move the writing
position or separate records. -/
def isBlank (letter : Char) : Bool :=
  inRanges [
    (0x9, 0xd), (0x1c, 0x20), (0x85, 0x85), (0xa0, 0xa0), (0x1680, 0x1680), (0x2000, 0x200a),
    (0x2028, 0x2029), (0x202f, 0x202f), (0x205f, 0x205f), (0x3000, 0x3000)] letter

/-- Characters that end a line. -/
def isLineEnd (letter : Char) : Bool :=
  inRanges [(0x0a, 0x0d), (0x1c, 0x1e), (0x85, 0x85), (0x2028, 0x2029)] letter

/-- Letters. -/
def isLetter (letter : Char) : Bool :=
  (category letter).isLetter

/-- Decimal digits of any script. -/
def isDecimal (letter : Char) : Bool :=
  category letter == .decimalNumber

/-- Decimal digits and the digits that carry a mark or stand raised or lowered. -/
def isDigit (letter : Char) : Bool :=
  isDecimal letter ||
    inRanges [
    (0xb2, 0xb3), (0xb9, 0xb9), (0x1369, 0x1371), (0x19da, 0x19da), (0x2070, 0x2070), (0x2074, 0x2079),
    (0x2080, 0x2089), (0x2460, 0x2468), (0x2474, 0x247c), (0x2488, 0x2490), (0x24ea, 0x24ea), (0x24f5, 0x24fd),
    (0x24ff, 0x24ff), (0x2776, 0x277e), (0x2780, 0x2788), (0x278a, 0x2792), (0x10a40, 0x10a43), (0x10e60, 0x10e68),
    (0x11052, 0x1105a), (0x1f100, 0x1f10a)] letter

/-- The value of a decimal digit.  The digits of a script stand in order from zero, and runs of
several scripts in a row are a multiple of ten long. -/
def decimalValue? (letter : Char) : Option Nat :=
  if letter.toNat < 0x80 then
    if '0' ≤ letter && letter ≤ '9' then some (letter.toNat - '0'.toNat) else none
  else
    let table := categoryStarts
    match table[lastStartAtMost table letter.toNat table.size 0 table.size]? with
    | some (start, .decimalNumber) => some ((letter.toNat - start) % 10)
    | _ => none

/-- Letters that stand for a number in the ideographic scripts. -/
def ideographicNumbers : List (Nat × Nat) :=
  [
    (0x3405, 0x3405), (0x3483, 0x3483), (0x382a, 0x382a), (0x3b4d, 0x3b4d), (0x4e00, 0x4e00), (0x4e03, 0x4e03),
    (0x4e07, 0x4e07), (0x4e09, 0x4e09), (0x4e5d, 0x4e5d), (0x4e8c, 0x4e8c), (0x4e94, 0x4e94), (0x4e96, 0x4e96),
    (0x4ebf, 0x4ec0), (0x4edf, 0x4edf), (0x4ee8, 0x4ee8), (0x4f0d, 0x4f0d), (0x4f70, 0x4f70), (0x5104, 0x5104),
    (0x5146, 0x5146), (0x5169, 0x5169), (0x516b, 0x516b), (0x516d, 0x516d), (0x5341, 0x5341), (0x5343, 0x5345),
    (0x534c, 0x534c), (0x53c1, 0x53c4), (0x56db, 0x56db), (0x58f1, 0x58f1), (0x58f9, 0x58f9), (0x5e7a, 0x5e7a),
    (0x5efe, 0x5eff), (0x5f0c, 0x5f0e), (0x5f10, 0x5f10), (0x62fe, 0x62fe), (0x634c, 0x634c), (0x67d2, 0x67d2),
    (0x6f06, 0x6f06), (0x7396, 0x7396), (0x767e, 0x767e), (0x8086, 0x8086), (0x842c, 0x842c), (0x8cae, 0x8cae),
    (0x8cb3, 0x8cb3), (0x8d30, 0x8d30), (0x9621, 0x9621), (0x9646, 0x9646), (0x964c, 0x964c), (0x9678, 0x9678),
    (0x96f6, 0x96f6), (0xf96b, 0xf96b), (0xf973, 0xf973), (0xf978, 0xf978), (0xf9b2, 0xf9b2), (0xf9d1, 0xf9d1),
    (0xf9d3, 0xf9d3), (0xf9fd, 0xf9fd), (0x20001, 0x20001), (0x20064, 0x20064), (0x200e2, 0x200e2), (0x20121, 0x20121),
    (0x2092a, 0x2092a), (0x20983, 0x20983), (0x2098c, 0x2098c), (0x2099c, 0x2099c), (0x20aea, 0x20aea), (0x20afd, 0x20afd),
    (0x20b19, 0x20b19), (0x22390, 0x22390), (0x22998, 0x22998), (0x23b1b, 0x23b1b), (0x2626d, 0x2626d), (0x2f890, 0x2f890)]

/-- Characters with a numeric value. -/
def isNumeric (letter : Char) : Bool :=
  (category letter).isNumber || inRanges ideographicNumbers letter

/-- Letters and characters with a numeric value. -/
def isAlphanumeric (letter : Char) : Bool :=
  let kind := category letter
  kind.isLetter || kind.isNumber

/-- Lower case: the lower case letters, and the raised, lowered and circled forms of them. -/
def isLowercase (letter : Char) : Bool :=
  category letter == .lowercaseLetter ||
    inRanges [
    (0xaa, 0xaa), (0xba, 0xba), (0x2b0, 0x2b8), (0x2c0, 0x2c1), (0x2e0, 0x2e4), (0x345, 0x345),
    (0x37a, 0x37a), (0x1d2c, 0x1d6a), (0x1d78, 0x1d78), (0x1d9b, 0x1dbf), (0x2071, 0x2071), (0x207f, 0x207f),
    (0x2090, 0x209c), (0x2170, 0x217f), (0x24d0, 0x24e9), (0x2c7c, 0x2c7d), (0xa69c, 0xa69d), (0xa770, 0xa770),
    (0xa7f8, 0xa7f9), (0xab5c, 0xab5f), (0x10780, 0x10780), (0x10783, 0x10785), (0x10787, 0x107b0), (0x107b2, 0x107ba)] letter

/-- Upper case: the upper case letters, and the circled and numeral forms of them. -/
def isUppercase (letter : Char) : Bool :=
  category letter == .uppercaseLetter ||
    inRanges [
    (0x2160, 0x216f), (0x24b6, 0x24cf), (0x1f130, 0x1f149), (0x1f150, 0x1f169), (0x1f170, 0x1f189)] letter

/-- Title case: the digraph letters whose first part alone is capital. -/
def isTitlecase (letter : Char) : Bool :=
  category letter == .titlecaseLetter

/-- Characters that are shown as themselves in a quoted text. -/
def isPrintable (letter : Char) : Bool :=
  letter == ' ' || !(category letter).isInvisible

/-- Characters a name may start with. -/
def startsName (letter : Char) : Bool :=
  if inRanges [
    (0x5f, 0x5f), (0x1885, 0x1886), (0x2118, 0x2118), (0x212e, 0x212e)] letter then true
  else if inRanges [
    (0x37a, 0x37a), (0xe33, 0xe33), (0xeb3, 0xeb3), (0x2e2f, 0x2e2f), (0xfc5e, 0xfc63), (0xfdfa, 0xfdfb),
    (0xfe70, 0xfe70), (0xfe72, 0xfe72), (0xfe74, 0xfe74), (0xfe76, 0xfe76), (0xfe78, 0xfe78), (0xfe7a, 0xfe7a),
    (0xfe7c, 0xfe7c), (0xfe7e, 0xfe7e), (0xff9e, 0xff9f)] letter then false
  else
    let kind := category letter
    kind.isLetter || kind == .letterNumber

/-- Characters a name may go on with. -/
def continuesName (letter : Char) : Bool :=
  if inRanges [
    (0xb7, 0xb7), (0x387, 0x387), (0x1369, 0x1371), (0x19da, 0x19da), (0x2118, 0x2118), (0x212e, 0x212e)] letter then true
  else if inRanges [
    (0x37a, 0x37a), (0x2e2f, 0x2e2f), (0xfc5e, 0xfc63), (0xfdfa, 0xfdfb), (0xfe70, 0xfe70), (0xfe72, 0xfe72),
    (0xfe74, 0xfe74), (0xfe76, 0xfe76), (0xfe78, 0xfe78), (0xfe7a, 0xfe7a), (0xfe7c, 0xfe7c), (0xfe7e, 0xfe7e)] letter then false
  else
    match category letter with
    | .nonspacingMark | .spacingMark | .decimalNumber | .connectorPunctuation | .letterNumber => true
    | kind => kind.isLetter

/-- A name: not empty, with a first character that starts names and further ones that go on. -/
def isName : List Char → Bool
  | [] => false
  | first :: rest => startsName first && rest.all continuesName

end Imprint.Text
