import GraphQuery.Unicode.Category

/-!
# Character properties

Membership in the binary properties that texts and patterns ask about.
-/

namespace GraphQuery.Unicode

/-- Runs of code points inside (`Y`) and outside (`N`) the property. -/
def alphabeticText : String :=
  "N65Y26N6Y26N47YN10YN4YN5Y23NY31NY458N4Y12N14Y5N7YNYN86YN42Y5NY2N2Y4NYN6YNY3NYNY20NY83NY139N8Y166
   NY38N2YN6Y41N39Y14NYNY2NY2NYN8Y27N4Y4N29Y11N5Y56NY7N14Y102NY8N4Y8N4Y3N10Y3N2YN16Y48N13Y101N24Y33
   N9Y2N4YN5Y24N2Y19N19Y25N7Y11N5Y24NY6N17Y42N10Y12N3Y7N6Y76NY16NY3N4Y15N13Y19NY8N2Y2N2Y22NY7NYN3Y4
   N3Y8N2Y2N2Y2NYN8YN4Y2NY5N12Y2N10YN4Y3NY6N4Y2N2Y22NY7NY2NY2NY2N4Y5N4Y2N2Y2N4YN7Y4NYN17Y6N11Y3NY9N
   Y3NY22NY7NY2NY5N3Y9NY3NY2N3YN15Y4N21Y4N4Y3NY8N2Y2N2Y22NY7NY2NY5N3Y8N2Y2N2Y2N9Y2N4Y2NY5N13YN16Y2N
   Y6N3Y3NY4N3Y2NYNY2N3Y2N3Y3N3Y12N4Y5N3Y3NY3N3YN6YN40Y13NY3NY23NY16N3Y8NY3NY3N8Y2NY3N2YN2Y4N28Y4N
   Y8NY3NY23NY10NY5N3Y8NY3NY3N8Y2N6Y2NY4N13Y3N12Y13NY3NY41N2Y8NY3NY3NYN5Y4N7Y5N22Y6NY3NY18N3Y24NY9N
   YN2Y7N8Y6NYNY8N18Y2N13Y58N5Y7N6YN51Y2NYNY5NY24NYNY19NY3N2Y5NYN6YN14Y4N32YN63Y8NY36N4Y19N4Y16NY36
   N67Y55NYN2Y5N16Y64N10Y4N2Y38NYN5YN2Y43NY333NY4N2Y7NYNY4N2Y41NY4N2Y33NY4N2Y7NYNY4N2Y15NY57NY4N2
   Y67N37Y16N16Y86N2Y6N3Y620N2Y17NY26N5Y75N3Y11N7Y20N11Y21N12Y20N12Y13NY3NY2N12Y52N2Y19N14YN4YN67
   Y89N7Y43N5Y70N10Y31NY12N4Y9N23Y30N2Y5N11Y44N4Y26N54Y28N4Y63N2Y20N50YN23Y2N11Y3N49Y52NY15NY8N51
   Y42N2Y4N10Y44NY11N14Y55N22Y3N10Y36N2Y11N5Y43N2Y3N41Y4NY6NY2N3YN5Y192N39Y14N11Y278N2Y6N2Y38N2Y6N2
   Y8NYNYNYNY31N2Y53NY7NYN3Y3NY7N3Y4N2Y6N4Y13N5Y3NY7N116YN13YN16Y13N101YN4YN2Y10NYN3Y5N6YNYNYNY4N
   Y11N2Y4N5Y5N4YN17Y41N813Y52N1814Y229N6Y4N3Y2N12Y38NYN5YN2Y56N7YN16Y23N9Y7NY7NY7NY7NY7NY7NY7NY7N
   Y32N47YN469Y3N25Y9N7Y5N2Y5N4Y86N6Y3NY90NY4N5Y43NY94N17Y32N48Y16N512Y6592N64Y22157N67Y46N2Y269N3
   Y16N10Y2N20Y47N5Y8N3Y113N39Y9N2Y103N2Y67N2Y2NYNY8N21Y20NY33N24Y52N12Y68NYN44Y6N3YNY3N10Y33N5Y35
   N13Y29N3Y51NY12N15YN16Y16N10Y5NY55N9Y14N18Y23N3Y69NYNYN24Y3N2Y16N2Y4N11Y6N2Y6N2Y6N9Y7NY7NY43NY14
   N6Y123N21Y11172N12Y23N4Y49N8452Y366N2Y106N38Y7N12Y5N5Y12NY13NY5NYNY2NY2NY108N33Y363N18Y64N2Y54
   N40Y12N116Y5NY135N36Y26N6Y26N11Y89N3Y6N2Y6N2Y6N2Y3N35Y12NY26NY19NY2NY15N2Y14N34Y123N69Y53N267Y29
   N3Y49N47Y32N13Y30N5Y43N5Y30N2Y36N4Y8NY5N42Y158N18Y36N4Y36N4Y40N8Y52N12Y11NY15NY7NY2NY11NY15NY7N
   Y2N3Y52N12Y311N9Y22N10Y8N24Y6NY42NY9N69Y6N2YNY44NY2N3YN2Y23N10Y23N9Y31N65Y19NY2N10Y22N10Y26N70
   Y56N6Y2N64Y4NY2N5Y8NY3NY29N42Y29N3Y29N35Y8NY28N27Y54N10Y22N10Y19N13Y18N110Y73N55Y51N13Y51N13Y40
   N34Y28N9Y23N250Y42NY2N3Y2N78Y29N10YN8Y22N42Y18N46Y21N27Y23N9Y70N43Y5N10Y57N9YN13Y25N23Y51N17Y4N8
   Y35N3YN9Y64NY4N9Y2N10YNYN35Y18NY34N2YN6Y4N62Y7NYNY4NY15NY10N7Y57N23Y4NY8N2Y2N2Y22NY7NY2NY5N3Y8N2
   Y2N2Y2N3YN6YN5Y7N156Y66NY3NY4N20Y3N30Y66N2Y2NYN184Y54N2Y7N25Y6N34Y63NYN3YN59Y54N2YN71Y27N2Y14N21
   Y7N185Y57N103Y64N31Y8N2YN2Y8NY2NY30NY2N2Y2N2Y4N93Y8N2Y46N2Y6NYNY2N27Y51N2Y10N17Y72N5YN18Y73N199
   Y33N31Y9NY45NY7NYN49Y30N2Y22NY14N73Y7NY2NY44N3YNY2NY3NYN2Y2N24Y6NY2NY37NY2NY4NYN327Y23N9Y17NY41
   N3Y3N111YN79Y922N102Y111N17Y196N2636Y97N15Y1072N17Y6N25Y3995N5Y583N6841Y30N1762Y569N7Y31N17Y79
   N17Y30N18Y48N16Y4N31Y21N5Y19N432Y45N211Y64N128Y75N4Y57N7Y17N64Y2NYN12Y2N14Y6136N8Y1238N42Y9N8935
   Y4NY7NY2NY291N15YN29Y3N2YN14Y4N8Y396N2308Y107N5Y13N3Y9N7Y10N4YN5985Y85NY71NY2N2YN2Y2N2Y4NY12NYN
   Y7NY65NY4N2Y8NY7NY28NY4NY5NYN3Y7NY340N2Y25NY25NY31NY25NY31NY25NY31NY25NY31NY25NY8N1844Y31N6Y6
   N213Y7NY17N2Y7NY2NY5N5Y62N33YN112Y45N10Y7N16YN321Y30N18Y44N484Y28N228Y30N2YN495Y7NY4NY2NY15NY197
   N59Y68N3YN3YN1204Y4NY27NY2NYN2YNY10NY4NYNYN6YN4YNYNYNY3NY2NYN2YNYNYNYNYNY2NYN2Y4NY7NY4NY4NYNY10N
   Y17N5Y3NY5NY17N628Y26N6Y26N6Y26N3702Y42720N32Y4154N6Y222N2Y5762N14Y7473N15Y622N2466Y542N1506
   Y4939N5Y4192N908368"

def alphabeticTable : RunTable :=
  .decode alphabeticText

/-- Letters, letter numbers and the vowel signs that behave like letters. -/
def isAlphabetic (c : Char) : Bool :=
  alphabeticTable.codeAt c = "Y"

/-- Runs of code points inside (`Y`) and outside (`N`) the property. -/
def uppercaseText : String :=
  "N65Y26N101Y23NY7N33YNYNYNYNYNYNYNYNYNYNYNYNYNYNYNYNYNYNYNYNYNYNYNYNYNYNYNYN2YNYNYNYNYNYNYNYN2YNY
   NYNYNYNYNYNYNYNYNYNYNYNYNYNYNYNYNYNYNYNYNYNY2NYNYN3Y2NYNY2NY3N2Y4NY2NY3N3Y2NY2NYNYNY2NYN2YNY2NY3
   NYNY2N3YN7YN2YN2YN2YNYNYNYNYNYNYNYN2YNYNYNYNYNYNYNYNYN2YN2YNY3NYNYNYNYNYNYNYNYNYNYNYNYNYNYNYNYNY
   NYNYNYNYNYNYNYNYNYNYNYNYN7Y2NY2N2YNY4NYNYNYNYN289YNYN3YN8YN6YNY3NYNY2NY17NY9N35YN2Y3N3YNYNYNYNYN
   YNYNYNYNYNYNYN5YN2YNY2N2Y51N48YNYNYNYNYNYNYNYNYNYNYNYNYNYNYNYNYN9YNYNYNYNYNYNYNYNYNYNYNYNYNYNYNY
   NYNYNYNYNYNYNYNYNYNYNYNY2NYNYNYNYNYNYN2YNYNYNYNYNYNYNYNYNYNYNYNYNYNYNYNYNYNYNYNYNYNYNYNYNYNYNYNY
   NYNYNYNYNYNYNYNYNYNYNYNYNYNYNYNYNYNYNYN2Y38N2889Y38NYN5YN722Y86N2195YN6Y43N2Y3N320YNYNYNYNYNYNYN
   YNYNYNYNYNYNYNYNYNYNYNYNYNYNYNYNYNYNYNYNYNYNYNYNYNYNYNYNYNYNYNYNYNYNYNYNYNYNYNYNYNYNYNYNYNYNYNYN
   YNYNYNYNYNYNYNYNYNYNYNYNYNYNYNYNYNYNYNYN9YNYNYNYNYNYNYNYNYNYNYNYNYNYNYNYNYNYNYNYNYNYNYNYNYNYNYNY
   NYNYNYNYNYNYNYNYNYNYNYNYNYNYNYNYNYNYNYNYNYN9Y8N8Y6N10Y8N8Y8N8Y6N11YNYNYNYN8Y8N72Y4N12Y4N12Y4N12
   Y5N11Y4N262YN4YN3Y3N2Y3N2YN3Y5N6YNYNYNY4N2Y4N10Y2N5YN26Y16N19YN818Y26N1840Y48N48YNY3N2YNYNYNY4NY
   N2YN8Y3NYNYNYNYNYNYNYNYNYNYNYNYNYNYNYNYNYNYNYNYNYNYNYNYNYNYNYNYNYNYNYNYNYNYNYNYNYNYNYNYNYNYNYNYN
   YNYNYNYNYN8YNYN4YN31053YNYNYNYNYNYNYNYNYNYNYNYNYNYNYNYNYNYNYNYNYNYNYN19YNYNYNYNYNYNYNYNYNYNYNYNY
   NYN135YNYNYNYNYNYNYN3YNYNYNYNYNYNYNYNYNYNYNYNYNYNYNYNYNYNYNYNYNYNYNYNYNYNYNYNYNYNYN10YNYNY2NYNYN
   YNYN4YNYN2YNYN3YNYNYNYNYNYNYNYNYNYNY5NY5NYNYNYNYNYNYNYNY4NYNY2N3YN5YNYNYNYN24YN22315Y26N1221Y40
   N136Y36N156Y11NY15NY7NY2N1770Y51N157Y22N2874Y32N21888Y32N26016Y26N26Y26N26Y26N26YNY2N2YN2Y2N2Y4N
   Y8N26Y26N26Y2NY4N2Y8NY7N27Y2NY4NY5NYN3Y7N27Y26N26Y26N26Y26N26Y26N26Y26N26Y26N30Y25N33Y25N33Y25
   N33Y25N33Y25N33YN4405Y34N2062Y26N6Y26N6Y26N986742"

def uppercaseTable : RunTable :=
  .decode uppercaseText

/-- Capital letters and the symbols made of them. -/
def isUppercase (c : Char) : Bool :=
  uppercaseTable.codeAt c = "Y"

/-- Runs of code points inside (`Y`) and outside (`N`) the property. -/
def lowercaseText : String :=
  "N97Y26N47YN10YN4YN36Y24NY8NYNYNYNYNYNYNYNYNYNYNYNYNYNYNYNYNYNYNYNYNYNYNYNYNYNYNYNY2NYNYNYNYNYNYN
   YNY2NYNYNYNYNYNYNYNYNYNYNYNYNYNYNYNYNYNYNYNYNYNYNYN2YNYNY3N2YNYN2YN3Y2N4YN2YN3Y3N2YN2YNYNYN2YNY2
   NYN2YN3YNYN2Y2N2Y3N6YN2YN2YNYNYNYNYNYNYNYNY2NYNYNYNYNYNYNYNYNY2N2YNYN3YNYNYNYNYNYNYNYNYNYNYNYNYN
   YNYNYNYNYNYNYNYNYNYNYNYNYNYNYNYNY7N2YN2Y2NYN4YNYNYNYNY69NY36N7Y2N30Y5N96YN43YNYN3YN2Y4N18YN27Y35
   NY2N3Y3NYNYNYNYNYNYNYNYNYNYNYNY5NYN2YN2Y2N51Y48NYNYNYNYNYNYNYNYNYNYNYNYNYNYNYNYNYN9YNYNYNYNYNYNY
   NYNYNYNYNYNYNYNYNYNYNYNYNYNYNYNYNYNYNYNYN2YNYNYNYNYNYNY2NYNYNYNYNYNYNYNYNYNYNYNYNYNYNYNYNYNYNYNY
   NYNYNYNYNYNYNYNYNYNYNYNYNYNYNYNYNYNYNYNYNYNYNYNYNYNYNYNYN48Y41N2887Y43NY4N760Y6N2178Y9NYN117Y192
   N65YNYNYNYNYNYNYNYNYNYNYNYNYNYNYNYNYNYNYNYNYNYNYNYNYNYNYNYNYNYNYNYNYNYNYNYNYNYNYNYNYNYNYNYNYNYNY
   NYNYNYNYNYNYNYNYNYNYNYNYNYNYNYNYNYNYNYNYNYNYNYNYNYNYNYNY9NYNYNYNYNYNYNYNYNYNYNYNYNYNYNYNYNYNYNYN
   YNYNYNYNYNYNYNYNYNYNYNYNYNYNYNYNYNYNYNYNYNYNYNYNYNYNYNYNYNY9N8Y6N10Y8N8Y8N8Y6N10Y8N8Y8N8Y14N2Y8
   N8Y8N8Y8N8Y5NY2N6YN3Y3NY2N8Y4N2Y2N8Y8N10Y3NY2N121YN13YN16Y13N109YN3Y2N3YN27YN4YN4YN2Y2N8Y4N4YN33
   Y16N4YN843Y26N1862Y48NYN3Y2NYNYNYN4YNY2NY8N3YNYNYNYNYNYNYNYNYNYNYNYNYNYNYNYNYNYNYNYNYNYNYNYNYNYN
   YNYNYNYNYNYNYNYNYNYNYNYNYNYNYNYNYNYNYNYNYNYNYNY2N7YNYN4YN12Y38NYN5YN30995YNYNYNYNYNYNYNYNYNYNYNY
   NYNYNYNYNYNYNYNYNYNYNYN19YNYNYNYNYNYNYNYNYNYNYNYNYNY3N133YNYNYNYNYNYNY3NYNYNYNYNYNYNYNYNYNYNYNYN
   YNYNYNYNYNYNYNYNYNYNYNYNYNYNYNYNYNYNY10NYNYN2YNYNYNYNYN4YNYN2YNY3NYNYNYNYNYNYNYNYNYNYN5YN5YNYNYN
   YNYNYNYNYN4YNYN2YN3YNYNYNYNYNYN22Y3NYNY3N821Y43NY14N6Y80N20288Y7N12Y5N1065Y26N1229Y40N136Y36N155
   Y11NY15NY7NY2N451YN2Y3NY42NY9N1285Y51N125Y22N2874Y32N21888Y32N26010Y26N26Y7NY18N26Y26N26Y4NYNY7N
   Y11N26Y26N26Y26N26Y26N26Y26N26Y26N26Y26N26Y26N26Y26N26Y28N28Y25NY6N26Y25NY6N26Y25NY6N26Y25NY6N26
   Y25NY6NYN1844Y10NY20N6Y6N261Y62N2228Y34N988860"

def lowercaseTable : RunTable :=
  .decode lowercaseText

/-- Small letters and the modifiers made of them. -/
def isLowercase (c : Char) : Bool :=
  lowercaseTable.codeAt c = "Y"

/-- Runs of code points inside (`Y`) and outside (`N`) the property. -/
def graphemeExtendText : String :=
  "N768Y112N275Y7N263Y45NYNY2NY2NYN72Y11N48Y21N16YN101Y7N2Y6N2Y2NY4N35YN30Y27N91Y11N58Y9N9YN24Y4NY9
   NY3NY5N43Y3N60Y8N42Y24NY32N55YNYN4Y8N4YN3Y7N10Y2N29YN58YNYN2Y4N8YN9YN10Y2N26YN2Y2N57YN4Y2N4Y2N2
   Y3N3YN30Y2N3YN11Y2N57YN4Y5NY2N4YN20Y2N22Y6NYN58YNY2NY4N8YN7Y3N10Y2N30YN59YNYN12YN9YN40YN3YN55YN
   Y3N5Y3NY4N7Y2N11Y2N29YN58YN2YN2YN3YN5Y2N7Y2N11Y2N28Y2N57Y2NYN2Y4N8YN9YN10Y2N29YN72YN4YN2Y3NYN8Y
   N81YN2Y7N12Y8N98YN2Y9N11Y7N73Y2N27YNYNYN55Y14NY5NY2N5Y11NY36N9YN102Y4NY6NY2N2Y2N25Y2N4Y3N16Y4N13
   YN2Y2N6YN15YN703Y3N946Y3N29Y2N30Y2N30Y2N64Y2NY7N8YN2Y11N9YN45Y3NYN117Y2N34YN118Y3N4Y2N9YN6Y3N219
   Y2N2YN58YNY7NYNYN2Y8N6Y10N2YN48Y31N49Y4N48Y7NYN5YN40Y9N12Y2N32Y4N2Y2NY3N56YNY2N3YNY3N58Y8N2Y2
   N152Y3NY13NY7N4YN6YN3Y2N198Y64N524YN195Y33N3070Y3N141YN96Y32N554Y6N105Y2N30164Y4NY10N32Y2N80Y2
   N272YN3YN4YN25Y2N5YN151Y2N26Y18N13YN38Y8N25Y11N46Y3N48YN2Y4N2Y2N39YN67Y6N2Y2N2Y2N12YN8YN47YN51YN
   Y3N2Y2N5Y2NYN42Y2N8YN238YN2YN4YN20272YN737Y16N16Y16N366Y2N605YN226YN149Y5N1670Y3NY2N5Y4N40Y3N4Y
   N165Y2N573Y4N65Y5N317Y2N80Y3N70Y11N49Y4N123YN54Y15N41YN2Y2N10Y3N49Y4N2Y2N7YN61Y3N36Y5NY8N62YN12
   Y2N52Y9N10Y4N2YN95Y3N2YNY2N6YN2YN157YN3Y8N21Y2N57Y2NYNYN22YN14Y7N3Y5N195Y8N2Y3NYN23YN81YN2Y6NYN2
   YNY2NY2N235YN2Y4N6Y2NY2N27Y2N85Y8N2YNY2N106YNYN2Y6NYN101Y3N2Y4NY5N259Y9NY2N245YN10Y2NYN4YN144Y4
   N2Y2N4YN32Y10N40Y6N2Y4N8YN9Y6N2Y3N46Y13NY2N406Y7NY6NYN82Y22N2Y7NY2NY2N122Y6N3YNY2NY7NYN72Y2N3YNY
   N347Y2N11Y2N52Y5N5YNYN5373YN6Y15N11464Y12N3Y3N2496Y5N59Y7N1048YN63Y4N81YN19640Y2N4705Y46N2Y23
   N542YNY3N4Y5N8Y8N2Y7N30Y4N148Y3N1979Y55N4Y50N8YN14YN22Y5NY15N1360Y7NY17N2Y7NY2NY5N100YN160Y7N375
   YN61Y4N508Y4N254Y2N736Y7N109Y7N792277Y96N128Y240N196112"

def graphemeExtendTable : RunTable :=
  .decode graphemeExtendText

/-- Characters that only ever continue the one before them. -/
def isGraphemeExtend (c : Char) : Bool :=
  graphemeExtendTable.codeAt c = "Y"

/-- Blanks: the controls from tab to carriage return, the space and its wider kin. -/
def isWhiteSpace (c : Char) : Bool :=
  let n := c.toNat
  (9 ≤ n && n ≤ 13) || n = 0x20 || n = 0x85 || n = 0xA0 || n = 0x1680 ||
    (0x2000 ≤ n && n ≤ 0x200A) || n = 0x2028 || n = 0x2029 || n = 0x202F || n = 0x205F ||
    n = 0x3000

/-- The two characters that only join or part their neighbours. -/
def isJoinControl (c : Char) : Bool :=
  c.toNat = 0x200C || c.toNat = 0x200D

/-- Characters of words: letters, marks, decimal digits, connectors and joiners. -/
def isWord (c : Char) : Bool :=
  isAlphabetic c || inCategory "M" c || inCategory "Nd" c || inCategory "Pc" c || isJoinControl c

/-- Letters and numbers. -/
def isAlphanumeric (c : Char) : Bool :=
  isAlphabetic c || inCategory "N" c

/-- Characters that can be shown as they are: neither blank, control, format, surrogate, private
nor unassigned. The space alone of the blanks is shown. -/
def isPrintable (c : Char) : Bool :=
  c = ' ' || !(["Cc", "Cf", "Cs", "Co", "Cn", "Zl", "Zp", "Zs"].contains (category c))

end GraphQuery.Unicode
