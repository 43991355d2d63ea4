import GraphQuery.Unicode.RunTable

/-!
# Further binary properties

Properties of characters that are looked up by name: for each, its names and its characters as runs
of `Y` and `N`.
-/

namespace GraphQuery.Unicode

/-- The names of each property, the long one first, and its runs. -/
def binaryTexts : List (List String × String) :=
  [(["Emoji"],
      "N35YN6YN5Y10N111YN4YN8077YN12YN216YN22YN90Y6N15Y2N367Y2N12YN166YN25Y11N4Y3N199YN231Y2N10YN9
      YN58Y4NY5N9YN2YN2Y2N2YN4YN2YNY2N2YN3YN3Y2N8Y3N5YNYN5Y12N11Y2N2YNY2NYN18YN2Y2N18Y6NYNY2N3Y2N5
      YN2Y2N4Y2N11Y2N5Y2N2YN5Y2NYNY2N20Y2N5Y6NY4N2YN4YN2YN2Y6NYN2YNYNYN6YN3YN6YN10Y2N15YN2YN4YNYN4
      Y3NYN11Y2N48Y3N9YN14YN14YN372Y2N463Y3N19Y2N51YN4YN1242YN12YN601YNYN114026YN202YN160Y2N12Y2
      N14YN2Y10N75Y26NY2N23YN20YN2Y9N21Y2N174Y34N2Y112N2Y2NY3N2Y83N2Y3NY263NY63N11Y6NY24N7Y2N2Y8
      N12YN2Y4N2YN4Y2N13Y2N2YN8Y2N9YN5Y3N12Y3N8Y3N2YNYN4YN6YN3YN6Y86N48Y70N5Y8N2Y3N4Y10N3YNY2N3YN2
      Y10N227Y12N4YN283Y47NY10NY185N112Y13N3Y9N7Y46NY7N8Y14N4Y9N7Y9N984327"),
    (["Extended_Pictographic", "ExtPict"],
      "N169YN4YN8077YN12YN216YN22YN90Y6N15Y2N367Y2N12YN95YN70YN25Y11N4Y3N199YN231Y2N10YN9YN58Y4NY6
      NY12NY114N10Y118N2Y11NYNYN6YN3YN6YN10Y2N15YN2YN4YNYN4Y3NYN11Y5N45Y3N9YN14YN14YN372Y2N463Y3
      N19Y2N51YN4YN1242YN12YN601YNYN114022Y256N13Y3N31YN60Y6N12Y2N14YN2Y10N18Y57N27Y15N10YN20YN2Y9
      NY4N9Y434N5Y318N8Y266N48Y128N116Y12N85Y43N12Y4N56Y8N10Y6N40Y8N30Y82N12Y47NY10NY441N256Y1022
      N983042"),
    (["Math"],
      "N43YN16Y3N31YN29YNYN45YN4YN37YN31YN728Y3N2YN26Y2N2Y3N527Y3N6669YN27Y3N11YN3YN13YN14Y4N21Y5
      N11Y5N65Y13N4YN3Y2N4Y5N18YN4YN2Y10NYN2Y6N6YN3Y2N2Y2NY3NY6N3Y14NYN68Y24NY6NY2N4Y2N4Y32NYN6Y2
      N14Y268N8Y4N20Y2N90YN30Y27NYN24YN11Y7N445Y2N12Y10N4Y6N4Y2N2Y2N3Y5N14YNYN2Y6N11Y8N5Y2N57YNY
      N29Y4N9Y3N336Y64N256Y512N48Y21N2Y6N53212YN823Y6NYN162YN16Y3N29YNYN29YNYN131YN6Y4N54291Y85N
      Y71NY2N2YN2Y2N2Y4NY12NYNY7NY65NY4N2Y8NY7NY28NY4NY5NYN3Y7NY340N2Y292N2Y50N5632Y4NY27NY2NYN2YN
      Y10NY4NYNYN6YN4YNYNYNY3NY2NYN2YNYNYNYNYNY2NYN2Y4NY7NY4NY4NYNY10NY17N5Y3NY5NY17N52Y2N987406"),
    (["Diacritic", "Dia"],
      "N94YNYN71YN6YN4YN2Y2N503Y159NY8N5Y6N17Y2N4YN9Y2N253Y5N209YN55Y17NY27NYNY2NYN134Y8N4Y2N134Y2
      N4Y2N3Y3N67Y27N91Y11N58Y11N34Y2N126Y8N41Y10N16Y28N61YN16YN3Y4N28YN74YN16YN110YN16YN110YN16Y
      N47Y3N60YN16YN7YN119YN110YN16YN110YN16YN109Y2N16YN124YN124Y6NYN107YN13Y5N75Y2N27YNYNYN4Y2N66
      Y3NY2N62YN112YNY2N40Y2N4Y5N25Y7NYN10Y2N705Y3N948Y2N179Y11N9YN347Y3N313Y8N2YN48Y15N2Y11N104Y
      N15YN38Y9N54Y2N138Y2N64Y6N82Y25N4YN6YN2Y3N50Y63N89Y12N37Y11N445YNY3N11Y3N13Y3N13Y3N13Y2N3312
      Y3N317YN506Y6N105Y4N95YN30066YN12Y2NYN28Y2N82Y2N14Y34N102Y3N109Y2N202YN27Y18N57Y4N36YN95YN12
      YN36YN149Y3N65Y4N51YN100Y5N9Y3N128Y2N20272YN769Y16N270YNYN47YN45Y2N67YN764YN1183Y6NY42NY9
      N810Y2N571Y6N469Y3N70Y11N49Y4N192YN41YN72Y2N120Y2N62YN76YN9Y3N104Y2N178Y2N81YN16YN24Y7N3Y5
      N205YN3YN123Y2N251Y2N126YN118Y2N115YN269Y2N258Y2N4YN156YN83YN18YN81YN421YN258YNY2N81YN5807
      Y15N13978Y5N59Y7N1112Y17N80Y2N16382Y4NY7NY2N7937Y46N2Y23N544Y3N3Y6N8Y8N2Y7N30Y4N3714Y62N194
      Y7N375YN61Y4N1504Y7N109Y3NY3N988853"),
    (["Extender", "Ext"],
      "N183YN536Y2N878YN441YN858YN752YN127YN2371YN56YN611YN398YN68YN5001YN43Y5N103Y2N93Y3N28438Y
      N1526YN962YN22YN137YN108YN21Y2N21627YN2064Y2N3034YN616Y3N1231YN20649Y2N1180Y2NYN29016Y2N2054
      Y3N988857"),
    (["Terminal_Punctuation", "Term"],
      "N33YN10YNYN11Y2N3YN830YN8YN513YN57YN72YN14YNY3N180YN43Y11NYN235Y2N54Y15N31YN261Y2N1268Y2
      N172YN4Y6N311Y2N789Y8N773YN124Y3N71Y2N157Y3N3YN39Y4N2Y2N314Y2N354Y4N174Y2NY3N29Y2N188Y5N62Y2
      N956Y2N9Y3N3556YN13YN4YN10YNY2N3Y2N428Y2N29947Y2N269Y3N227Y5N382Y2N86Y2N95YN151Y3N147Y3N127Y
      N16Y2N249YN21092Y3NY4N169YN10YNYN11Y2N3YN65YN2YN1082YN48YN1158YN199YN310Y2N152Y6N68Y6N89Y4
      N952Y5N44Y4N189Y7N112Y4N127Y3N129Y2N6YN16Y2N88Y5N108YN417Y3N12Y2N358Y4N3Y15N105Y2N249Y3N517Y
      NYN251Y2N87Y2N4Y2N414Y3N45YN645Y2N74Y2N1323Y5N17913Y2N133YN65Y3N10YN850Y2N19974YN7655Y4
      N992629"),
    (["Sentence_Terminal", "STerm"],
      "N33YN12YN16YN1353YN147Y3N180YN43Y3N246YN61YNYN3Y2N293Y2N1764Y2N790YN4Y2N773YN198Y2N204YN5Y
      N314Y2N354Y4N174Y2N2Y2N29Y2N188Y2N65Y2N956Y2N9Y3N3556YN13YN22Y2N429YN29948YN270Y2N227YN3Y
      N382Y2N86Y2N95YN152Y2N147Y3N144Y2N249YN21094YN3Y2N169YN12YN16YN65YN2804Y2N1277Y5N44Y4N189Y2
      N117Y4N127Y3N129Y2N6YN16Y2N88Y2NY2N108YN417Y2N373Y2N5Y15N105Y2N249Y3N517YNYN251Y2N87Y2N420Y2
      N692Y2N74Y2N19241Y2N133YN65Y2N11YN851YN19974YN7656YN992631"),
    (["Case_Ignorable", "CI"],
      "N39YN6YN11YN35YNYN71YN4YNYN4YN2Y2N503Y192N4Y2N4YN9Y2NYN251Y7N207YN5YN49Y45NYNY2NY2NYN44YN11
      Y6N10Y11NYN35YN10Y21N16YN101Y8NY10NY4N33YNYN30Y27N91Y11N58Y11N4YN2YN24Y24N43Y3N44YN7Y2N6Y8
      N41Y58N55YNYN4Y8N4YN3Y7N10Y2N13YN15YN58YN4Y4N8YN20Y2N26YN2Y2N57YN4Y2N4Y2N2Y3N3YN30Y2N3YN11Y2
      N57YN4Y5NY2N4YN20Y2N22Y6NYN58YN2YNY4N8YN7Y2N11Y2N30YN61YN12YN50YN3YN55YNY3N5Y3NY4N7Y2N11Y2
      N29YN58YN2YN6YN5Y2N20Y2N28Y2N57Y2N4Y4N8YN20Y2N29YN72YN7Y3NYN90YN2Y7N11Y9N98YN2Y9N9YNY7N73Y2
      N27YNYNYN55Y14NY5NY2N5Y11NY36N9YN102Y4NY6NY2N2Y2N25Y2N4Y3N16Y4N13YN2Y2N6YN15YN94YN608Y3N946
      Y3N29Y2N30Y2N30Y2N64Y2NY7N8YN2Y11N3YN5YN45Y5N51YN65Y2N34YN118Y3N4Y2N9YN6Y3N219Y2N2YN58YNY7NY
      NYN2Y8N6Y10N2YN39YN8Y31N49Y4N48YNY5NYN5YN40Y9N12Y2N32Y4N2Y2NY3N56YNY2N3YNY3N58Y8N2Y2N64Y6N82
      Y3NY13NY7N4YN6YN3Y2N50Y63N13YN34Y101N445YNY3N11Y3N13Y3N13Y3N13Y2N12Y5N8Y2N10YN2YN2Y5N49Y5N
      Y10NYN13YN16Y13N51Y33N2955Y2N113Y3N125YN15YN96Y32N47YN469YN36Y4N3Y5N5YN93Y6N93Y3N28438YN1250
      Y6N270YN98Y4NY10NYN28Y4N80Y2N14Y34N78YN23Y3N103Y3N3Y2N8YN3YN4YN25Y2N5YN151Y2N26Y18N13YN38Y8
      N25Y11N46Y3N48YN2Y4N2Y2N17YN21Y2N66Y6N2Y2N2Y2N12YN8YN35YN11YN51YNY3N2Y2N5Y2NYN27YN14Y2N5Y2NY
      N100Y5N9Y3N121YN2YN4YN20272YN147Y17N573Y16N3YN12Y16N34YN2YN169YN7YN6YN11YN35YNYN47YN45Y2N67Y
      N21Y3N513YN226YN149Y5N1029Y6NY42NY9N582Y3NY2N5Y4N40Y3N4YN165Y2N573Y4N387Y2N80Y3N70Y11N49Y4
      N123YN54Y15N41YN2Y2N10Y3N49Y4N2Y2N2YN4YN10YN50Y3N36Y5NY8N62YN12Y2N52Y9N10Y4N2YN95Y3N2YNY2N6Y
      N2YN157YN3Y8N21Y2N57Y2N3YN37Y7N3Y5N195Y8N2Y3NYN23YN84Y6NYN4Y2NY2N238Y4N6Y2NY2N27Y2N85Y8N2YN
      Y2N106YNYN2Y6NYN101Y3N2Y4NY5N259Y9NY2N256Y2NYN4YN144Y4N2Y2N4YN32Y10N40Y6N2Y4N8YN9Y6N2Y3N46
      Y13NY2N406Y7NY6NYN82Y22N2Y7NY2NY2N122Y6N3YNY2NY7NYN72Y2N3YNYN347Y2N11Y2N52Y5N5YNYN5357Y17N6
      Y15N13978Y5N59Y7N9Y4N1035YN63Y17N64Y2NY2N16395Y4NY7NY2N3230Y2NY4N4700Y46N2Y23N544Y3N9Y16N2Y7
      N30Y4N148Y3N1979Y55N4Y50N8YN14YN22Y5NY15N1360Y7NY17N2Y7NY2NY5N5Y62N33YN160Y14N368YN61Y4N507
      Y5N992Y7N109Y8N2735Y5N789505YN30Y96N128Y240N196112"),
    (["Dash"],
      "N45YN1372YN51YN3649YN1029YN2057Y6N61YN39YN15YN390YN3076YN2YN31Y2N4YN28YN446YN19YN111YN52624
      Y2N37YN10YN169YN3999YN1044818"),
    (["Default_Ignorable_Code_Point", "DI"],
      "N173YN673YN716YN2882Y2N1619Y2N85Y5N2043Y5N26Y5N49Y16N4340YN52379Y16N239YN160YN79Y9N48295Y4
      N5327Y8N798341Y4096N192512"),
    (["Hex_Digit", "Hex"],
      "N48Y10N7Y6N26Y6N65193Y10N7Y6N26Y6N1048761"),
    (["ASCII_Hex_Digit", "AHex"],
      "N48Y10N7Y6N26Y6N1114009"),
    (["Ideographic", "Ideo"],
      "N12294Y2N25Y9N14Y3N965Y6592N64Y20992N22784Y366N2Y106N29962YN27Y6136N8Y1238N42Y9N9319Y396
      N19716Y42720N32Y4154N6Y222N2Y5762N14Y7473N3103Y542N1506Y4939N5Y4192N908368"),
    (["Unified_Ideograph", "UIdeo"],
      "N13312Y6592N64Y20992N23054Y2NYNY2N10YNYNY2N2Y3N67030Y42720N32Y4154N6Y222N2Y5762N14Y7473
      N5151Y4939N5Y4192N908368"),
    (["Radical"],
      "N11904Y26NY89N12Y214N1101866"),
    (["Quotation_Mark", "QMark"],
      "N34YN4YN131YN15YN8028Y8N25Y2N3591YN457Y4N13Y3N52769Y4N189YN4YN90Y2N1048732"),
    (["Noncharacter_Code_Point", "NChar"],
      "N64976Y32N526Y2N65534Y2N65534Y2N65534Y2N65534Y2N65534Y2N65534Y2N65534Y2N65534Y2N65534Y2
      N65534Y2N65534Y2N65534Y2N65534Y2N65534Y2N65534Y2N65534Y2"),
    (["Pattern_Syntax", "Pat_Syn"],
      "N33Y15N10Y7N26Y4NYN26Y4N34Y7NYNY2NYNY2N4YN4YN3YN23YN31YN7960Y24N8Y15N2Y19NY10N305Y720N160
      Y630N30Y1132N512Y128N385Y3N4Y25N15YN52493Y2N261Y2N1049017"),
    (["Pattern_White_Space", "Pat_WS"],
      "N9Y5N18YN100YN8072Y2N24Y2N1105878"),
    (["Regional_Indicator", "RI"],
      "N127462Y26N986624"),
    (["Soft_Dotted", "SD"],
      "N105Y2N196YN281YN30YN52YN20YN320YN98YNYN6409YN51YN13YN3YN132YN157YN421YN214Y2N2866YN108453
      Y2N50Y2N50Y2N50Y2N50Y2N50Y2N50Y2N50Y2N50Y2N50Y2N50Y2N50Y2N50Y2N2182YN305Y2N26YN991127"),
    (["Variation_Selector", "VS"],
      "N6155Y3NYN58864Y16N852720Y240N196112"),
    (["Join_Control", "Join_C"],
      "N8204Y2N1105906"),
    (["ID_Start", "IDS"],
      "N65Y26N6Y26N47YN10YN4YN5Y23NY31NY458N4Y12N14Y5N7YNYN129Y5NY2N2Y4NYN6YNY3NYNY20NY83NY139N8
      Y166NY38N2YN6Y41N71Y27N4Y4N45Y43N35Y2NY99NYN15Y2N7Y2N10Y3N2YN16YNY30N29Y89N11YN24Y33N9Y2N4Y
      N5Y22N4YN9YN3YN23Y25N7Y11N5Y24NY6N17Y42N58Y54N3YN18YN7Y10N15Y16N4Y8N2Y2N2Y22NY7NYN3Y4N3YN16Y
      N13Y2NY3N14Y2N10YN8Y6N4Y2N2Y22NY7NY2NY2NY2N31Y4NYN19Y3N16Y9NY3NY22NY7NY2NY5N3YN18YN15Y2N23Y
      N11Y8N2Y2N2Y22NY7NY2NY5N3YN30Y2NY3N15YN17YNY6N3Y3NY4N3Y2NYNY2N3Y2N3Y3N3Y12N22YN52Y8NY3NY23N
      Y16N3YN26Y3N2YN2Y2N30YN4Y8NY3NY23NY10NY5N3YN31Y2NY2N15Y2N17Y9NY3NY41N2YN16YN5Y3N8Y3N24Y6N5
      Y18N3Y24NY9NYN2Y7N58Y48NY2N12Y7N58Y2NYNY5NY24NYNY10NY2N9YN2Y5NYN21Y4N32YN63Y8NY36N27Y5N115
      Y43N20YN16Y6N4Y4N3YN3Y2N7Y3N4Y13N12YN17Y38NYN5YN2Y43NY333NY4N2Y7NYNY4N2Y41NY4N2Y33NY4N2Y7NYN
      Y4N2Y15NY57NY4N2Y67N37Y16N16Y86N2Y6N3Y620N2Y17NY26N5Y75N3Y11N7Y18N13Y19N14Y18N14Y13NY3N15Y52
      N35YN4YN67Y89N7Y41NYN5Y70N10Y31N49Y30N2Y5N11Y44N4Y26N54Y23N9Y53N82YN93Y47N17Y8N54Y30N13Y2N10
      Y44N26Y36N41Y3N10Y36N2Y9N7Y43N2Y3N41Y4NY6NY2N3YN5Y192N64Y278N2Y6N2Y38N2Y6N2Y8NYNYNYNY31N2Y53
      NY7NYN3Y3NY7N3Y4N2Y6N4Y13N5Y3NY7N116YN13YN16Y13N101YN4YN2Y10NYN2Y6N6YNYNYNY16N2Y4N5Y5N4YN17
      Y41N2679Y229N6Y4N3Y2N12Y38NYN5YN2Y56N7YN16Y23N9Y7NY7NY7NY7NY7NY7NY7NY7N550Y3N25Y9N7Y5N2Y5N4
      Y86N4Y5NY90NY4N5Y43NY94N17Y32N48Y16N512Y6592N64Y22157N67Y46N2Y269N3Y16N10Y2N20Y47N16Y31N2Y80
      N39Y9N2Y103N2Y64N5Y2NYNY5N24Y16NY3NY4NY23N29Y52N14Y50N62Y6N3YNY2N11Y28N10Y23N25Y29N7Y47N28Y
      N16Y5NY10N10Y5NY41N23Y3NY8N20Y23N3YN3Y50NYN3Y2N2Y5N2YNYN24Y3N2Y11N7Y3N12Y6N2Y6N2Y6N9Y7NY7N
      Y43NY14N6Y115N29Y11172N12Y23N4Y49N8452Y366N2Y106N38Y7N12Y5N5YNY10NY13NY5NYNY2NY2NY108N33Y363
      N18Y64N2Y54N40Y12N116Y5NY135N36Y26N6Y26N11Y89N3Y6N2Y6N2Y6N2Y3N35Y12NY26NY19NY2NY15N2Y14N34
      Y123N69Y53N267Y29N3Y49N47Y32N13Y30N5Y38N10Y30N2Y36N4Y8NY5N42Y158N18Y36N4Y36N4Y40N8Y52N12Y11N
      Y15NY7NY2NY11NY15NY7NY2N67Y311N9Y22N10Y8N24Y6NY42NY9N69Y6N2YNY44NY2N3YN2Y23N10Y23N9Y31N65Y19
      NY2N10Y22N10Y26N70Y56N6Y2N64YN15Y4NY3NY29N42Y29N3Y29N35Y8NY28N27Y54N10Y22N10Y19N13Y18N110Y73
      N55Y51N13Y51N13Y36N348Y42N6Y2N78Y29N10YN8Y22N42Y18N46Y21N27Y23N12Y53N57Y2N2YN13Y45N32Y25N26
      Y36N29YN2YN8Y35N3YN12Y48N14Y4N21YNYN35Y18NY25N19Y2N63Y7NYNY4NY15NY10N7Y47N38Y8N2Y2N2Y22NY7N
      Y2NY5N3YN18YN12Y5N158Y53N18Y4N20Y3N30Y48N20Y2NYN184Y47N41Y4N36Y48N20YN59Y43N13YN71Y27N37Y7
      N185Y44N116Y64N31Y8N2YN2Y8NY2NY24N15YNYN94Y8N2Y39N16YNYN28YN10Y40N7YN21YN11Y46N19YN18Y73N263
      Y9NY37N17YN49Y30N112Y7NY2NY38N21YN25Y6NY2NY32N14YN327Y19N15YNY13NY34N124YN79Y922N102Y111N17
      Y196N2636Y97N15Y1072N17Y6N4025Y583N8633Y569N7Y31N17Y79N17Y30N18Y48N16Y4N31Y21N5Y19N688Y64
      N128Y75N5YN66Y13N64Y2NYN28Y6136N8Y1238N42Y9N8935Y4NY7NY2NY291N15YN29Y3N2YN14Y4N8Y396N2308
      Y107N5Y13N3Y9N7Y10N5990Y85NY71NY2N2YN2Y2N2Y4NY12NYNY7NY65NY4N2Y8NY7NY28NY4NY5NYN3Y7NY340N2
      Y25NY25NY31NY25NY31NY25NY31NY25NY31NY25NY8N1844Y31N6Y6N261Y62N146Y45N10Y7N16YN321Y30N18Y44
      N484Y28N756Y7NY4NY2NY15NY197N59Y68N7YN1204Y4NY27NY2NYN2YNY10NY4NYNYN6YN4YNYNYNY3NY2NYN2YNYNY
      NYNYNY2NYN2Y4NY7NY4NY4NYNY10NY17N5Y3NY5NY17N4420Y42720N32Y4154N6Y222N2Y5762N14Y7473N3103Y542
      N1506Y4939N5Y4192N908368"),
    (["ID_Continue", "IDC"],
      "N48Y10N7Y26N4YNY26N47YN10YNYN2YN5Y23NY31NY458N4Y12N14Y5N7YNYN17Y117NY2N2Y4NYN6Y5NYNY20NY83N
      Y139NY5N2Y166NY38N2YN6Y41N8Y45NYNY2NY2NYN8Y27N4Y4N29Y11N5Y74N4Y102NY8N2Y10NY19N2YN16Y59N2
      Y101N14Y54N4YN2YN2Y46N18Y28N4Y11N5Y24NY6N9Y74NY129N2Y10NY19NY8N2Y2N2Y22NY7NYN3Y4N2Y9N2Y2N2Y4
      N8YN4Y2NY5N2Y12N10YNYN2Y3NY6N4Y2N2Y22NY7NY2NY2NY2N2YNY5N4Y2N2Y3N3YN7Y4NYN7Y16N11Y3NY9NY3NY22
      NY7NY2NY5N2Y10NY3NY3N2YN15Y4N2Y10N9Y7NY3NY8N2Y2N2Y22NY7NY2NY5N2Y9N2Y2N2Y3N7Y3N4Y2NY5N2Y10NY
      N16Y2NY6N3Y3NY4N3Y2NYNY2N3Y2N3Y3N3Y12N4Y5N3Y3NY4N2YN6YN14Y10N16Y13NY3NY23NY16N2Y9NY3NY4N7Y2N
      Y3N2YN2Y4N2Y10N16Y4NY8NY3NY23NY10NY5N2Y9NY3NY4N7Y2N6Y2NY4N2Y10NY3N12Y13NY3NY51NY3NY5N5Y4N7Y5
      N2Y10N10Y6NY3NY18N3Y24NY9NYN2Y7N3YN4Y6NYNY8N6Y10N2Y2N13Y58N5Y15NY10N39Y2NYNY5NY24NYNY23N2Y5N
      YNY7NY10N2Y4N32YN23Y2N6Y10N11YNYNYN4Y10NY36N4Y20NY18NY36N9YN57Y74N6Y78N2Y38NYN5YN2Y43NY333N
      Y4N2Y7NYNY4N2Y41NY4N2Y33NY4N2Y7NYNY4N2Y15NY57NY4N2Y67N2Y3N9Y9N14Y16N16Y86N2Y6N3Y620N2Y17NY26
      N5Y75N3Y11N7Y22N9Y22N11Y20N12Y13NY3NY2N12Y84N3YN4Y2N2Y10N33Y3NY11N6Y89N7Y43N5Y70N10Y31NY12N4
      Y12N10Y40N2Y5N11Y44N4Y26N6Y11N37Y28N4Y63NY29N2Y11N6Y10N13YN8Y14NY16N49Y77N3Y10N17Y9N12Y116
      N12Y56N8Y10N3Y49N2Y9N7Y43N2Y3N16Y3NY39N5Y534N2Y6N2Y38N2Y6N2Y8NYNYNYNY31N2Y53NY7NYN3Y3NY7N3Y4
      N2Y6N4Y13N5Y3NY7N66Y2N19YN28YN13YN16Y13N51Y13N4YN3Y12N17YN4YN2Y10NYN2Y6N6YNYNYNY16N2Y4N5Y5N4
      YN17Y41N2679Y229N6Y9N12Y38NYN5YN2Y56N7YN15Y24N9Y7NY7NY7NY7NY7NY7NY7NY7NY32N517Y3N25Y15NY5N2
      Y5N4Y86N2Y7NY90NY4N5Y43NY94N17Y32N48Y16N512Y6592N64Y22157N67Y46N2Y269N3Y28N20Y48N4Y10NY115
      N37Y9N2Y103N2Y64N5Y2NYNY5N24Y54N4YN19Y52N12Y70N10Y10N6Y24N3YNY49N2Y36N12Y29N3Y65N14Y11N6Y31N
      Y55N9Y14N2Y10N6Y23N3Y73N24Y3N2Y16N2Y5N10Y6N2Y6N2Y6N9Y7NY7NY43NY14N6Y123NY2N2Y10N6Y11172N12
      Y23N4Y49N8452Y366N2Y106N38Y7N12Y5N5Y12NY13NY5NYNY2NY2NY108N33Y363N18Y64N2Y54N40Y12N4Y16N16
      Y16N3Y2N24Y3N32Y5NY135N19Y10N7Y26N4YNY26N11Y89N3Y6N2Y6N2Y6N2Y3N35Y12NY26NY19NY2NY15N2Y14N34
      Y123N69Y53N136YN130Y29N3Y49N15YN31Y32N13Y30N5Y43N5Y30N2Y36N4Y8NY5N42Y158N2Y10N6Y36N4Y36N4Y40
      N8Y52N12Y11NY15NY7NY2NY11NY15NY7NY2N67Y311N9Y22N10Y8N24Y6NY42NY9N69Y6N2YNY44NY2N3YN2Y23N10
      Y23N9Y31N65Y19NY2N10Y22N10Y26N70Y56N6Y2N64Y4NY2N5Y8NY3NY29N2Y3N4YN32Y29N3Y29N35Y8NY30N25Y54
      N10Y22N10Y19N13Y18N110Y73N55Y51N13Y51N13Y40N8Y10N326Y42NY2N3Y2N75Y32N10YN8Y33N31Y22N42Y21N27
      Y23N9Y71N31Y16N9Y60N7YN13Y25N7Y10N6Y53NY10N4Y4N8Y36N2YN9Y69N4Y4NY13NYN35Y18NY37N6Y4N62Y7NYN
      Y4NY15NY10N7Y59N5Y10N6Y4NY8N2Y2N2Y22NY7NY2NY5NY10N2Y2N2Y3N2YN6YN5Y7N2Y7N3Y5N139Y75N5Y10N4Y4
      N30Y70NYN8Y10N166Y54N2Y9N23Y6N34Y65N3YN11Y10N38Y57N7Y10N54Y27N2Y15N4Y10N6Y7N185Y59N101Y74N21
      Y8N2YN2Y8NY2NY30NY2N2Y9N12Y10N70Y8N2Y46N2Y8NY2N27Y63N8YN8Y74N3YN18Y73N263Y9NY45NY9N15Y10N24
      Y30N2Y22NY14N73Y7NY2NY44N3YNY2NY9N8Y10N6Y6NY2NY37NY2NY6N7Y10N310Y23N9Y17NY41N3Y5N13Y10N86Y
      N79Y922N102Y111N17Y196N2636Y97N15Y1072N16Y22N4010Y583N8633Y569N7Y31NY10N6Y79NY10N6Y30N2Y5N11
      Y55N9Y4N12Y10N9Y21N5Y19N688Y64N128Y75N4Y57N7Y17N64Y2NY2N11Y2N14Y6136N8Y1238N42Y9N8935Y4NY7N
      Y2NY291N15YN29Y3N2YN14Y4N8Y396N2308Y107N5Y13N3Y9N7Y10N3Y2N4705Y46N2Y23N542Y5N3Y6N8Y8N2Y7N30
      Y4N148Y3N443Y85NY71NY2N2YN2Y2N2Y4NY12NYNY7NY65NY4N2Y8NY7NY28NY4NY5NYN3Y7NY340N2Y25NY25NY31N
      Y25NY31NY25NY31NY25NY31NY25NY8N2Y50N512Y55N4Y50N8YN14YN22Y5NY15N1104Y31N6Y6N213Y7NY17N2Y7NY2
      NY5N5Y62N33YN112Y45N3Y14N2Y10N4YN321Y31N17Y58N470Y42N742Y7NY4NY2NY15NY197N11Y7N41Y76N4Y10
      N1190Y4NY27NY2NYN2YNY10NY4NYNYN6YN4YNYNYNY3NY2NYN2YNYNYNYNYNY2NYN2Y4NY7NY4NY4NYNY10NY17N5Y3N
      Y5NY17N3380Y10N1030Y42720N32Y4154N6Y222N2Y5762N14Y7473N3103Y542N1506Y4939N5Y4192N712016Y240
      N196112"),
    (["XID_Start", "XIDS"],
      "N65Y26N6Y26N47YN10YN4YN5Y23NY31NY458N4Y12N14Y5N7YNYN129Y5NY2N3Y3NYN6YNY3NYNY20NY83NY139N8
      Y166NY38N2YN6Y41N71Y27N4Y4N45Y43N35Y2NY99NYN15Y2N7Y2N10Y3N2YN16YNY30N29Y89N11YN24Y33N9Y2N4Y
      N5Y22N4YN9YN3YN23Y25N7Y11N5Y24NY6N17Y42N58Y54N3YN18YN7Y10N15Y16N4Y8N2Y2N2Y22NY7NYN3Y4N3YN16Y
      N13Y2NY3N14Y2N10YN8Y6N4Y2N2Y22NY7NY2NY2NY2N31Y4NYN19Y3N16Y9NY3NY22NY7NY2NY5N3YN18YN15Y2N23Y
      N11Y8N2Y2N2Y22NY7NY2NY5N3YN30Y2NY3N15YN17YNY6N3Y3NY4N3Y2NYNY2N3Y2N3Y3N3Y12N22YN52Y8NY3NY23N
      Y16N3YN26Y3N2YN2Y2N30YN4Y8NY3NY23NY10NY5N3YN31Y2NY2N15Y2N17Y9NY3NY41N2YN16YN5Y3N8Y3N24Y6N5
      Y18N3Y24NY9NYN2Y7N58Y48NYN13Y7N58Y2NYNY5NY24NYNY10NYN10YN2Y5NYN21Y4N32YN63Y8NY36N27Y5N115Y43
      N20YN16Y6N4Y4N3YN3Y2N7Y3N4Y13N12YN17Y38NYN5YN2Y43NY333NY4N2Y7NYNY4N2Y41NY4N2Y33NY4N2Y7NYNY4
      N2Y15NY57NY4N2Y67N37Y16N16Y86N2Y6N3Y620N2Y17NY26N5Y75N3Y11N7Y18N13Y19N14Y18N14Y13NY3N15Y52
      N35YN4YN67Y89N7Y41NYN5Y70N10Y31N49Y30N2Y5N11Y44N4Y26N54Y23N9Y53N82YN93Y47N17Y8N54Y30N13Y2N10
      Y44N26Y36N41Y3N10Y36N2Y9N7Y43N2Y3N41Y4NY6NY2N3YN5Y192N64Y278N2Y6N2Y38N2Y6N2Y8NYNYNYNY31N2Y53
      NY7NYN3Y3NY7N3Y4N2Y6N4Y13N5Y3NY7N116YN13YN16Y13N101YN4YN2Y10NYN2Y6N6YNYNYNY16N2Y4N5Y5N4YN17
      Y41N2679Y229N6Y4N3Y2N12Y38NYN5YN2Y56N7YN16Y23N9Y7NY7NY7NY7NY7NY7NY7NY7N550Y3N25Y9N7Y5N2Y5N4
      Y86N6Y3NY90NY4N5Y43NY94N17Y32N48Y16N512Y6592N64Y22157N67Y46N2Y269N3Y16N10Y2N20Y47N16Y31N2Y80
      N39Y9N2Y103N2Y64N5Y2NYNY5N24Y16NY3NY4NY23N29Y52N14Y50N62Y6N3YNY2N11Y28N10Y23N25Y29N7Y47N28Y
      N16Y5NY10N10Y5NY41N23Y3NY8N20Y23N3YN3Y50NYN3Y2N2Y5N2YNYN24Y3N2Y11N7Y3N12Y6N2Y6N2Y6N9Y7NY7N
      Y43NY14N6Y115N29Y11172N12Y23N4Y49N8452Y366N2Y106N38Y7N12Y5N5YNY10NY13NY5NYNY2NY2NY108N33Y139
      N6Y218N18Y64N2Y54N40Y10N119YNYN3YNYNYNYNY126N36Y26N6Y26N11Y56N2Y31N3Y6N2Y6N2Y6N2Y3N35Y12NY26
      NY19NY2NY15N2Y14N34Y123N69Y53N267Y29N3Y49N47Y32N13Y30N5Y38N10Y30N2Y36N4Y8NY5N42Y158N18Y36N4
      Y36N4Y40N8Y52N12Y11NY15NY7NY2NY11NY15NY7NY2N67Y311N9Y22N10Y8N24Y6NY42NY9N69Y6N2YNY44NY2N3YN2
      Y23N10Y23N9Y31N65Y19NY2N10Y22N10Y26N70Y56N6Y2N64YN15Y4NY3NY29N42Y29N3Y29N35Y8NY28N27Y54N10
      Y22N10Y19N13Y18N110Y73N55Y51N13Y51N13Y36N348Y42N6Y2N78Y29N10YN8Y22N42Y18N46Y21N27Y23N12Y53
      N57Y2N2YN13Y45N32Y25N26Y36N29YN2YN8Y35N3YN12Y48N14Y4N21YNYN35Y18NY25N19Y2N63Y7NYNY4NY15NY10
      N7Y47N38Y8N2Y2N2Y22NY7NY2NY5N3YN18YN12Y5N158Y53N18Y4N20Y3N30Y48N20Y2NYN184Y47N41Y4N36Y48N20Y
      N59Y43N13YN71Y27N37Y7N185Y44N116Y64N31Y8N2YN2Y8NY2NY24N15YNYN94Y8N2Y39N16YNYN28YN10Y40N7YN21
      YN11Y46N19YN18Y73N263Y9NY37N17YN49Y30N112Y7NY2NY38N21YN25Y6NY2NY32N14YN327Y19N15YNY13NY34
      N124YN79Y922N102Y111N17Y196N2636Y97N15Y1072N17Y6N4025Y583N8633Y569N7Y31N17Y79N17Y30N18Y48N16
      Y4N31Y21N5Y19N688Y64N128Y75N5YN66Y13N64Y2NYN28Y6136N8Y1238N42Y9N8935Y4NY7NY2NY291N15YN29Y3N2
      YN14Y4N8Y396N2308Y107N5Y13N3Y9N7Y10N5990Y85NY71NY2N2YN2Y2N2Y4NY12NYNY7NY65NY4N2Y8NY7NY28NY4N
      Y5NYN3Y7NY340N2Y25NY25NY31NY25NY31NY25NY31NY25NY31NY25NY8N1844Y31N6Y6N261Y62N146Y45N10Y7N16Y
      N321Y30N18Y44N484Y28N756Y7NY4NY2NY15NY197N59Y68N7YN1204Y4NY27NY2NYN2YNY10NY4NYNYN6YN4YNYNYN
      Y3NY2NYN2YNYNYNYNYNY2NYN2Y4NY7NY4NY4NYNY10NY17N5Y3NY5NY17N4420Y42720N32Y4154N6Y222N2Y5762N14
      Y7473N3103Y542N1506Y4939N5Y4192N908368"),
    (["XID_Continue", "XIDC"],
      "N48Y10N7Y26N4YNY26N47YN10YNYN2YN5Y23NY31NY458N4Y12N14Y5N7YNYN17Y117NY2N3Y3NYN6Y5NYNY20NY83N
      Y139NY5N2Y166NY38N2YN6Y41N8Y45NYNY2NY2NYN8Y27N4Y4N29Y11N5Y74N4Y102NY8N2Y10NY19N2YN16Y59N2
      Y101N14Y54N4YN2YN2Y46N18Y28N4Y11N5Y24NY6N9Y74NY129N2Y10NY19NY8N2Y2N2Y22NY7NYN3Y4N2Y9N2Y2N2Y4
      N8YN4Y2NY5N2Y12N10YNYN2Y3NY6N4Y2N2Y22NY7NY2NY2NY2N2YNY5N4Y2N2Y3N3YN7Y4NYN7Y16N11Y3NY9NY3NY22
      NY7NY2NY5N2Y10NY3NY3N2YN15Y4N2Y10N9Y7NY3NY8N2Y2N2Y22NY7NY2NY5N2Y9N2Y2N2Y3N7Y3N4Y2NY5N2Y10NY
      N16Y2NY6N3Y3NY4N3Y2NYNY2N3Y2N3Y3N3Y12N4Y5N3Y3NY4N2YN6YN14Y10N16Y13NY3NY23NY16N2Y9NY3NY4N7Y2N
      Y3N2YN2Y4N2Y10N16Y4NY8NY3NY23NY10NY5N2Y9NY3NY4N7Y2N6Y2NY4N2Y10NY3N12Y13NY3NY51NY3NY5N5Y4N7Y5
      N2Y10N10Y6NY3NY18N3Y24NY9NYN2Y7N3YN4Y6NYNY8N6Y10N2Y2N13Y58N5Y15NY10N39Y2NYNY5NY24NYNY23N2Y5N
      YNY7NY10N2Y4N32YN23Y2N6Y10N11YNYNYN4Y10NY36N4Y20NY18NY36N9YN57Y74N6Y78N2Y38NYN5YN2Y43NY333N
      Y4N2Y7NYNY4N2Y41NY4N2Y33NY4N2Y7NYNY4N2Y15NY57NY4N2Y67N2Y3N9Y9N14Y16N16Y86N2Y6N3Y620N2Y17NY26
      N5Y75N3Y11N7Y22N9Y22N11Y20N12Y13NY3NY2N12Y84N3YN4Y2N2Y10N33Y3NY11N6Y89N7Y43N5Y70N10Y31NY12N4
      Y12N10Y40N2Y5N11Y44N4Y26N6Y11N37Y28N4Y63NY29N2Y11N6Y10N13YN8Y14NY16N49Y77N3Y10N17Y9N12Y116
      N12Y56N8Y10N3Y49N2Y9N7Y43N2Y3N16Y3NY39N5Y534N2Y6N2Y38N2Y6N2Y8NYNYNYNY31N2Y53NY7NYN3Y3NY7N3Y4
      N2Y6N4Y13N5Y3NY7N66Y2N19YN28YN13YN16Y13N51Y13N4YN3Y12N17YN4YN2Y10NYN2Y6N6YNYNYNY16N2Y4N5Y5N4
      YN17Y41N2679Y229N6Y9N12Y38NYN5YN2Y56N7YN15Y24N9Y7NY7NY7NY7NY7NY7NY7NY7NY32N517Y3N25Y15NY5N2
      Y5N4Y86N2Y2N2Y3NY90NY4N5Y43NY94N17Y32N48Y16N512Y6592N64Y22157N67Y46N2Y269N3Y28N20Y48N4Y10N
      Y115N37Y9N2Y103N2Y64N5Y2NYNY5N24Y54N4YN19Y52N12Y70N10Y10N6Y24N3YNY49N2Y36N12Y29N3Y65N14Y11N6
      Y31NY55N9Y14N2Y10N6Y23N3Y73N24Y3N2Y16N2Y5N10Y6N2Y6N2Y6N9Y7NY7NY43NY14N6Y123NY2N2Y10N6Y11172
      N12Y23N4Y49N8452Y366N2Y106N38Y7N12Y5N5Y12NY13NY5NYNY2NY2NY108N33Y139N6Y218N18Y64N2Y54N40Y10
      N6Y16N16Y16N3Y2N24Y3N33YNYN3YNYNYNYNY126N19Y10N7Y26N4YNY26N11Y89N3Y6N2Y6N2Y6N2Y3N35Y12NY26N
      Y19NY2NY15N2Y14N34Y123N69Y53N136YN130Y29N3Y49N15YN31Y32N13Y30N5Y43N5Y30N2Y36N4Y8NY5N42Y158N2
      Y10N6Y36N4Y36N4Y40N8Y52N12Y11NY15NY7NY2NY11NY15NY7NY2N67Y311N9Y22N10Y8N24Y6NY42NY9N69Y6N2YN
      Y44NY2N3YN2Y23N10Y23N9Y31N65Y19NY2N10Y22N10Y26N70Y56N6Y2N64Y4NY2N5Y8NY3NY29N2Y3N4YN32Y29N3
      Y29N35Y8NY30N25Y54N10Y22N10Y19N13Y18N110Y73N55Y51N13Y51N13Y40N8Y10N326Y42NY2N3Y2N75Y32N10YN8
      Y33N31Y22N42Y21N27Y23N9Y71N31Y16N9Y60N7YN13Y25N7Y10N6Y53NY10N4Y4N8Y36N2YN9Y69N4Y4NY13NYN35
      Y18NY37N6Y4N62Y7NYNY4NY15NY10N7Y59N5Y10N6Y4NY8N2Y2N2Y22NY7NY2NY5NY10N2Y2N2Y3N2YN6YN5Y7N2Y7N3
      Y5N139Y75N5Y10N4Y4N30Y70NYN8Y10N166Y54N2Y9N23Y6N34Y65N3YN11Y10N38Y57N7Y10N54Y27N2Y15N4Y10N6
      Y7N185Y59N101Y74N21Y8N2YN2Y8NY2NY30NY2N2Y9N12Y10N70Y8N2Y46N2Y8NY2N27Y63N8YN8Y74N3YN18Y73N263
      Y9NY45NY9N15Y10N24Y30N2Y22NY14N73Y7NY2NY44N3YNY2NY9N8Y10N6Y6NY2NY37NY2NY6N7Y10N310Y23N9Y17N
      Y41N3Y5N13Y10N86YN79Y922N102Y111N17Y196N2636Y97N15Y1072N16Y22N4010Y583N8633Y569N7Y31NY10N6
      Y79NY10N6Y30N2Y5N11Y55N9Y4N12Y10N9Y21N5Y19N688Y64N128Y75N4Y57N7Y17N64Y2NY2N11Y2N14Y6136N8
      Y1238N42Y9N8935Y4NY7NY2NY291N15YN29Y3N2YN14Y4N8Y396N2308Y107N5Y13N3Y9N7Y10N3Y2N4705Y46N2Y23
      N542Y5N3Y6N8Y8N2Y7N30Y4N148Y3N443Y85NY71NY2N2YN2Y2N2Y4NY12NYNY7NY65NY4N2Y8NY7NY28NY4NY5NYN3
      Y7NY340N2Y25NY25NY31NY25NY31NY25NY31NY25NY31NY25NY8N2Y50N512Y55N4Y50N8YN14YN22Y5NY15N1104Y31
      N6Y6N213Y7NY17N2Y7NY2NY5N5Y62N33YN112Y45N3Y14N2Y10N4YN321Y31N17Y58N470Y42N742Y7NY4NY2NY15N
      Y197N11Y7N41Y76N4Y10N1190Y4NY27NY2NYN2YNY10NY4NYNYN6YN4YNYNYNY3NY2NYN2YNYNYNYNYNY2NYN2Y4NY7N
      Y4NY4NYNY10NY17N5Y3NY5NY17N3380Y10N1030Y42720N32Y4154N6Y222N2Y5762N14Y7473N3103Y542N1506
      Y4939N5Y4192N712016Y240N196112")]

/-- The properties with their runs decoded, under their long names. -/
def binaryTables : List (String × RunTable) :=
  binaryTexts.map fun (names, text) => (names.headD "", .decode text)

/-- Whether a character has the property of this long name. -/
def hasBinary (name : String) (c : Char) : Bool :=
  match binaryTables.lookup name with
  | some table => table.codeAt c = "Y"
  | none => false

end GraphQuery.Unicode
