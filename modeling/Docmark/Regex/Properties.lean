import Docmark.Text.Blank

/-!
# Names of character properties

The names under which regular expressions know properties of characters, in normal form: lower-case
letters, without blanks, hyphens and underscores, and without an `is` in front.
-/

namespace Docmark.Regex

/-- General categories, short and long. -/
def categoryNames : String :=
  "l letter lu uppercaseletter ll lowercaseletter lt titlecaseletter lc casedletter lm
  modifierletter lo otherletter m mark combiningmark mn nonspacingmark mc spacingmark me
  enclosingmark n number nd decimalnumber digit nl letternumber no othernumber p punctuation punct
  pc connectorpunctuation pd dashpunctuation ps openpunctuation pe closepunctuation pi
  initialpunctuation pf finalpunctuation po otherpunctuation s symbol sm mathsymbol sc
  currencysymbol sk modifiersymbol so othersymbol z separator zs spaceseparator zl lineseparator zp
  paragraphseparator c other cc control cntrl cf format co privateuse cn unassigned any assigned
  ascii"

/-- Properties that a character has or has not. -/
def binaryNames : String :=
  "asciihexdigit ahex alphabetic alpha bidicontrol bidic bidimirrored bidim caseignorable ci cased
  changeswhencasefolded cwcf changeswhencasemapped cwcm changeswhenlowercased cwl
  changeswhennfkccasefolded cwkcf changeswhentitlecased cwt changeswhenuppercased cwu dash
  defaultignorablecodepoint di deprecated dep diacritic dia emoji emojicomponent ecomp
  emojimodifier emod emojimodifierbase ebase emojipresentation epres extendedpictographic extpict
  extender ext graphemebase grbase graphemeextend grext graphemelink grlink hexdigit hex hyphen
  idcompatmathcontinue idcompatmathstart idcontinue idc idstart ids ideographic ideo
  idsbinaryoperator idsb idstrinaryoperator idst idsunaryoperator idsu joincontrol joinc
  logicalorderexception loe lowercase lower math modifiercombiningmark mcm noncharactercodepoint
  nchar otheralphabetic oalpha otherdefaultignorablecodepoint odi othergraphemeextend ogrext
  otheridcontinue oidc otheridstart oids otherlowercase olower othermath omath otheruppercase
  oupper patternsyntax patsyn patternwhitespace patws prependedconcatenationmark pcm quotationmark
  qmark radical regionalindicator ri sentenceterminal sterm softdotted sd terminalpunctuation term
  unifiedideograph uideo uppercase upper variationselector vs whitespace wspace space xidcontinue
  xidc xidstart xids"

/-- Scripts. -/
def scriptNames : String :=
  "adlam adlm ahom anatolianhieroglyphs hluw arabic arab armenian armn avestan avst balinese bali
  bamum bamu bassavah bass batak batk bengali beng bhaiksuki bhks bopomofo bopo brahmi brah braille
  brai buginese bugi buhid buhd canadianaboriginal cans carian cari caucasianalbanian aghb chakma
  cakm cham cherokee cher chorasmian chrs common zyyy coptic copt qaac cuneiform xsux cypriot cprt
  cyprominoan cpmn cyrillic cyrl deseret dsrt devanagari deva divesakuru diak dogra dogr duployan
  dupl egyptianhieroglyphs egyp elbasan elba elymaic elym ethiopic ethi garay gara georgian geor
  glagolitic glag gothic goth grantha gran greek grek gujarati gujr gunjalagondi gong gurmukhi guru
  gurungkhema gukh han hani hangul hang hanifirohingya rohg hanunoo hano hatran hatr hebrew hebr
  hiragana hira imperialaramaic armi inherited zinh qaai inscriptionalpahlavi phli
  inscriptionalparthian prti javanese java kaithi kthi kannada knda katakana kana kawi kayahli kali
  kharoshthi khar khitansmallscript kits khmer khmr khojki khoj khudawadi sind kiratrai krai lao
  laoo latin latn lepcha lepc limbu limb lineara lina linearb linb lisu lycian lyci lydian lydi
  mahajani mahj makasar maka malayalam mlym mandaic mand manichaean mani marchen marc masaramgondi
  gonm medefaidrin medf meeteimayek mtei mendekikakui mend meroiticcursive merc
  meroitichieroglyphs mero miao plrd modi mongolian mong mro mroo multani mult myanmar mymr
  nabataean nbat nagmundari nagm nandinagari nand newtailue talu newa nko nkoo nushu nshu
  nyiakengpuachuehmong hmnp ogham ogam olchiki olck oldhungarian hung olditalic ital
  oldnortharabian narb oldpermic perm oldpersian xpeo oldsogdian sogo oldsoutharabian sarb
  oldturkic orkh olduyghur ougr olonal onao oriya orya osage osge osmanya osma pahawhhmong hmng
  palmyrene palm paucinhau pauc phagspa phag phoenician phnx psalterpahlavi phlp rejang rjng runic
  runr samaritan samr saurashtra saur sharada shrd shavian shaw siddham sidd signwriting sgnw
  sinhala sinh sogdian sogd sorasompeng sora soyombo soyo sundanese sund sunuwar sunu sylotinagri
  sylo syriac syrc tagalog tglg tagbanwa tagb taile tale taitham lana taiviet tavt takri takr tamil
  taml tangsa tnsa tangut tang telugu telu thaana thaa thai tibetan tibt tifinagh tfng tirhuta tirh
  todhri todr toto tulutigalari tutg ugaritic ugar vai vaii vithkuqi vith wancho wcho warangciti
  wara yezidi yezi yi yiii zanabazarsquare zanb"

/-- The name without blanks, underscores, hyphens and characters above ASCII, in lower case. -/
def plainName (name : Text) : Text :=
  (name.filter fun c => c ≠ ' ' ∧ c ≠ '_' ∧ c ≠ '-' ∧ c.toNat < 128).map Char.toLower

/-- The normal form of a name.  An `is` at its start does not count, but in `isc`. -/
def normalName (name : Text) : Text :=
  if (name.take 2).map Char.toLower = "is".toList then
    let plain := plainName (name.drop 2)
    if plain = ['c'] then "isc".toList else plain
  else plainName name

/-- Whether a name in normal form is in a list of names. -/
def isListed (names : String) (name : Text) : Bool := (words names.toList).contains name

/-- Whether a name in normal form is that of a property, a category or a script. -/
def isProperty (name : Text) : Bool :=
  isListed binaryNames name || isListed categoryNames name || isListed scriptNames name

/-- The versions of the character database in which characters came, each in both its spellings. -/
def ageNames : String :=
  "1.1 v11 2.0 v20 2.1 v21 3.0 v30 3.1 v31 3.2 v32 4.0 v40 4.1 v41 5.0 v50 5.1 v51 5.2 v52 6.0 v60
  6.1 v61 6.2 v62 6.3 v63 7.0 v70 8.0 v80 9.0 v90 10.0 v100 11.0 v110 12.0 v120 12.1 v121 13.0 v130
  14.0 v140 15.0 v150 15.1 v151 16.0 v160"

/-- The classes of characters that decide where a text may be cut between graphemes. -/
def graphemeBreakNames : String :=
  "cn control cr ex extend l lf lv lvt pp prepend ri regionalindicator sm spacingmark t v zwj"

/-- The classes of characters that decide where a text may be cut between words. -/
def wordBreakNames : String :=
  "le aletter cr dq doublequote extend ex extendnumlet fo format hl hebrewletter ka katakana lf
  ml midletter mn midnum mb midnumlet nl newline nu numeric ri regionalindicator sq singlequote
  wsegspace zwj"

/-- The classes of characters that decide where a text may be cut between sentences. -/
def sentenceBreakNames : String :=
  "at aterm cl close cr ex extend fo format le oletter lf lo lower nu numeric sc scontinue se sep
  sp st sterm up upper"

/-- Whether a property with a value is known, both in normal form. -/
def isPropertyValue (name value : Text) : Bool :=
  if name = "gc".toList ∨ name = "generalcategory".toList then isListed categoryNames value
  else if name ∈ ["sc".toList, "script".toList, "scx".toList, "scriptextensions".toList] then
    isListed scriptNames value
  else if name = "age".toList then isListed ageNames value
  else if name = "gcb".toList ∨ name = "graphemeclusterbreak".toList then
    isListed graphemeBreakNames value
  else if name = "wb".toList ∨ name = "wordbreak".toList then isListed wordBreakNames value
  else if name = "sb".toList ∨ name = "sentencebreak".toList then isListed sentenceBreakNames value
  else false

end Docmark.Regex
