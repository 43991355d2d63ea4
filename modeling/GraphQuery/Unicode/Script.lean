import GraphQuery.Unicode.RunTable

/-!
# Scripts

The script of every code point, under its four-letter code.
-/

namespace GraphQuery.Unicode

/-- Runs of code points of one script, from `U+0000` to `U+10FFFF`. -/
def scriptText : String :=
  "Zyyy65Latn26Zyyy6Latn26Zyyy47LatnZyyy15LatnZyyy5Latn23ZyyyLatn31ZyyyLatn449Zyyy39Latn5Zyyy5Bopo2
   Zyyy20Zinh112Grek4ZyyyGrek3Zzzz2Grek4ZyyyGrekZzzz4GrekZyyyGrekZyyyGrek3ZzzzGrekZzzzGrek20Zzzz
   Grek63Copt14Grek16Cyrl133Zinh2Cyrl169ZzzzArmn38Zzzz2Armn50Zzzz2Armn3ZzzzHebr55Zzzz8Hebr27Zzzz4
   Hebr6Zzzz11Arab5ZyyyArab6ZyyyArab14ZyyyArab3ZyyyArab32ZyyyArab10Zinh11Arab26ZinhArab108Zyyy
   Arab34Syrc14ZzzzSyrc60Zzzz2Syrc3Arab48Thaa50Zzzz14Nkoo59Zzzz2Nkoo3Samr46Zzzz2Samr15ZzzzMand28
   Zzzz2MandZzzzSyrc11Zzzz5Arab31ZzzzArab2Zzzz6Arab74ZyyyArab29Deva81Zinh4Deva15Zyyy2Deva26Beng4
   ZzzzBeng8Zzzz2Beng2Zzzz2Beng22ZzzzBeng7ZzzzBengZzzz3Beng4Zzzz2Beng9Zzzz2Beng2Zzzz2Beng4Zzzz8Beng
   Zzzz4Beng2ZzzzBeng5Zzzz2Beng25Zzzz2Guru3ZzzzGuru6Zzzz4Guru2Zzzz2Guru22ZzzzGuru7ZzzzGuru2Zzzz
   Guru2ZzzzGuru2Zzzz2GuruZzzzGuru5Zzzz4Guru2Zzzz2Guru3Zzzz3GuruZzzz7Guru4ZzzzGuruZzzz7Guru17Zzzz10
   Gujr3ZzzzGujr9ZzzzGujr3ZzzzGujr22ZzzzGujr7ZzzzGujr2ZzzzGujr5Zzzz2Gujr10ZzzzGujr3ZzzzGujr3Zzzz2
   GujrZzzz15Gujr4Zzzz2Gujr12Zzzz7Gujr7ZzzzOrya3ZzzzOrya8Zzzz2Orya2Zzzz2Orya22ZzzzOrya7ZzzzOrya2
   ZzzzOrya5Zzzz2Orya9Zzzz2Orya2Zzzz2Orya3Zzzz7Orya3Zzzz4Orya2ZzzzOrya5Zzzz2Orya18Zzzz10Taml2Zzzz
   Taml6Zzzz3Taml3ZzzzTaml4Zzzz3Taml2ZzzzTamlZzzzTaml2Zzzz3Taml2Zzzz3Taml3Zzzz3Taml12Zzzz4Taml5
   Zzzz3Taml3ZzzzTaml4Zzzz2TamlZzzz6TamlZzzz14Taml21Zzzz5Telu13ZzzzTelu3ZzzzTelu23ZzzzTelu16Zzzz2
   Telu9ZzzzTelu3ZzzzTelu4Zzzz7Telu2ZzzzTelu3Zzzz2TeluZzzz2Telu4Zzzz2Telu10Zzzz7Telu9Knda13Zzzz
   Knda3ZzzzKnda23ZzzzKnda10ZzzzKnda5Zzzz2Knda9ZzzzKnda3ZzzzKnda4Zzzz7Knda2Zzzz6Knda2ZzzzKnda4Zzzz2
   Knda10ZzzzKnda3Zzzz12Mlym13ZzzzMlym3ZzzzMlym51ZzzzMlym3ZzzzMlym6Zzzz4Mlym16Zzzz2Mlym26ZzzzSinh3
   ZzzzSinh18Zzzz3Sinh24ZzzzSinh9ZzzzSinhZzzz2Sinh7Zzzz3SinhZzzz4Sinh6ZzzzSinhZzzzSinh8Zzzz6Sinh10
   Zzzz2Sinh3Zzzz12Thai58Zzzz4ZyyyThai28Zzzz37Laoo2ZzzzLaooZzzzLaoo5ZzzzLaoo24ZzzzLaooZzzzLaoo23
   Zzzz2Laoo5ZzzzLaooZzzzLaoo7ZzzzLaoo10Zzzz2Laoo4Zzzz32Tibt72ZzzzTibt36Zzzz4Tibt39ZzzzTibt36Zzzz
   Tibt15ZzzzTibt7Zyyy4Tibt2Zzzz37Mymr160Geor38ZzzzGeorZzzz5GeorZzzz2Geor43ZyyyGeor4Hang256Ethi73
   ZzzzEthi4Zzzz2Ethi7ZzzzEthiZzzzEthi4Zzzz2Ethi41ZzzzEthi4Zzzz2Ethi33ZzzzEthi4Zzzz2Ethi7ZzzzEthi
   ZzzzEthi4Zzzz2Ethi15ZzzzEthi57ZzzzEthi4Zzzz2Ethi67Zzzz2Ethi32Zzzz3Ethi26Zzzz6Cher86Zzzz2Cher6
   Zzzz2Cans640Ogam29Zzzz3Runr75Zyyy3Runr11Zzzz7Tglg22Zzzz9TglgHano21Zyyy2Zzzz9Buhd20Zzzz12Tagb13
   ZzzzTagb3ZzzzTagb2Zzzz12Khmr94Zzzz2Khmr10Zzzz6Khmr10Zzzz6Mong2Zyyy2MongZyyyMong20Zzzz6Mong89
   Zzzz7Mong43Zzzz5Cans70Zzzz10Limb31ZzzzLimb12Zzzz4Limb12Zzzz4LimbZzzz3Limb12Tale30Zzzz2Tale5
   Zzzz11Talu44Zzzz4Talu26Zzzz6Talu11Zzzz3Talu2Khmr32Bugi28Zzzz2Bugi2Lana63ZzzzLana29Zzzz2Lana11
   Zzzz6Lana10Zzzz6Lana14Zzzz2Zinh31Zzzz49Bali77Zzzz3Bali47ZzzzSund64Batk52Zzzz8Batk4Lepc56Zzzz3
   Lepc15Zzzz3Lepc3Olck48Cyrl11Zzzz5Geor43Zzzz2Geor3Sund8Zzzz8Zinh3ZyyyZinh13ZyyyZinh7Zyyy4Zinh
   Zyyy6ZinhZyyy3Zinh2ZyyyZzzz5Latn38Grek5CyrlLatn49Grek5Latn4Grek5Latn13CyrlLatn70GrekZinh64
   Latn256Grek22Zzzz2Grek6Zzzz2Grek38Zzzz2Grek6Zzzz2Grek8ZzzzGrekZzzzGrekZzzzGrekZzzzGrek31Zzzz2
   Grek53ZzzzGrek15ZzzzGrek14Zzzz2Grek6ZzzzGrek19Zzzz2Grek3ZzzzGrek9ZzzzZyyy12Zinh2Zyyy87ZzzzZyyy11
   LatnZzzz2Zyyy11LatnZyyy15ZzzzLatn13Zzzz3Zyyy33Zzzz15Zinh33Zzzz15Zyyy38GrekZyyy3Latn2Zyyy6Latn
   Zyyy27LatnZyyy17Latn41Zyyy3Zzzz4Zyyy663Zzzz25Zyyy11Zzzz21Zyyy928Brai256Zyyy628Zzzz2Zyyy32Zzzz
   Zyyy105Glag96Latn32Copt116Zzzz5Copt7Geor38ZzzzGeorZzzz5GeorZzzz2Tfng56Zzzz7Tfng2Zzzz14TfngEthi23
   Zzzz9Ethi7ZzzzEthi7ZzzzEthi7ZzzzEthi7ZzzzEthi7ZzzzEthi7ZzzzEthi7ZzzzEthi7ZzzzCyrl32Zyyy94Zzzz34
   Hani26ZzzzHani89Zzzz12Hani214Zzzz26Zyyy21HaniZyyyHaniZyyy25Hani9Zinh4Hang2Zyyy8Hani4Zyyy4Zzzz
   Hira86Zzzz2Zinh2Zyyy2Hira3ZyyyKana90Zyyy2Kana3Zzzz5Bopo43ZzzzHang94ZzzzZyyy16Bopo32Zyyy36Zzzz11
   ZyyyKana16Hang31ZzzzZyyy64Hang31Zyyy81Kana47ZyyyKana88Zyyy168Hani6592Zyyy64Hani20992Yiii1165
   Zzzz3Yiii55Zzzz9Lisu48Vaii300Zzzz20Cyrl96Bamu88Zzzz8Zyyy34Latn102Zyyy3Latn67Zzzz2Latn2ZzzzLatn
   ZzzzLatn8Zzzz21Latn14Sylo45Zzzz3Zyyy10Zzzz6Phag56Zzzz8Saur70Zzzz8Saur12Zzzz6Deva32Kali46ZyyyKali
   Rjng36Zzzz11RjngHang29Zzzz3Java78ZzzzZyyyJava10Zzzz4Java2Mymr31ZzzzCham55Zzzz9Cham14Zzzz2Cham10
   Zzzz2Cham4Mymr32Tavt67Zzzz24Tavt5Mtei23Zzzz10Ethi6Zzzz2Ethi6Zzzz2Ethi6Zzzz9Ethi7ZzzzEthi7Zzzz
   Latn43ZyyyLatn9GrekLatn4Zyyy2Zzzz4Cher80Mtei46Zzzz2Mtei10Zzzz6Hang11172Zzzz12Hang23Zzzz4Hang49
   Zzzz8452Hani366Zzzz2Hani106Zzzz38Latn7Zzzz12Armn5Zzzz5Hebr26ZzzzHebr5ZzzzHebrZzzzHebr2ZzzzHebr2
   ZzzzHebr10Arab115Zzzz16Arab363Zyyy2Arab80Zzzz2Arab54Zzzz7ArabZzzz32Arab16Zinh16Zyyy10Zzzz6Zinh14
   Cyrl2Zyyy35ZzzzZyyy19ZzzzZyyy4Zzzz4Arab5ZzzzArab135Zzzz2ZyyyZzzzZyyy32Latn26Zyyy6Latn26Zyyy11
   Kana10ZyyyKana45Zyyy2Hang31Zzzz3Hang6Zzzz2Hang6Zzzz2Hang6Zzzz2Hang3Zzzz3Zyyy7ZzzzZyyy7Zzzz10
   Zyyy5Zzzz2Linb12ZzzzLinb26ZzzzLinb19ZzzzLinb2ZzzzLinb15Zzzz2Linb14Zzzz34Linb123Zzzz5Zyyy3Zzzz4
   Zyyy45Zzzz3Zyyy9Grek79ZzzzZyyy13Zzzz3GrekZzzz47Zyyy45ZinhZzzz130Lyci29Zzzz3Cari49Zzzz15Zinh
   Zyyy27Zzzz4Ital36Zzzz9Ital3Goth27Zzzz5Perm43Zzzz5Ugar30ZzzzUgarXpeo36Zzzz4Xpeo14Zzzz42Dsrt80
   Shaw48Osma30Zzzz2Osma10Zzzz6Osge36Zzzz4Osge36Zzzz4Elba40Zzzz8Aghb52Zzzz11AghbVith11ZzzzVith15
   ZzzzVith7ZzzzVith2ZzzzVith11ZzzzVith15ZzzzVith7ZzzzVith2Zzzz3Todr52Zzzz12Lina311Zzzz9Lina22
   Zzzz10Lina8Zzzz24Latn6ZzzzLatn42ZzzzLatn9Zzzz69Cprt6Zzzz2CprtZzzzCprt44ZzzzCprt2Zzzz3CprtZzzz2
   CprtArmi22ZzzzArmi9Palm32Nbat31Zzzz8Nbat9Zzzz48Hatr19ZzzzHatr2Zzzz5Hatr5Phnx28Zzzz3PhnxLydi26
   Zzzz5LydiZzzz64Mero32Merc24Zzzz4Merc20Zzzz2Merc46Khar4ZzzzKhar2Zzzz5Khar8ZzzzKhar3ZzzzKhar29
   Zzzz2Khar3Zzzz4Khar10Zzzz7Khar9Zzzz7Sarb32Narb32Zzzz32Mani39Zzzz4Mani12Zzzz9Avst54Zzzz3Avst7
   Prti22Zzzz2Prti8Phli19Zzzz5Phli8Phlp18Zzzz7Phlp4Zzzz12Phlp7Zzzz80Orkh73Zzzz55Hung51Zzzz13Hung51
   Zzzz7Hung6Rohg40Zzzz8Rohg10Zzzz6Gara38Zzzz3Gara29Zzzz8Gara2Zzzz208Arab31ZzzzYezi42ZzzzYezi3Zzzz2
   Yezi2Zzzz75Arab3Sogo40Zzzz8Sogd42Zzzz22Ougr26Zzzz38Chrs28Zzzz20Elym23Zzzz9Brah78Zzzz4Brah36Zzzz9
   BrahKthi67Zzzz10KthiZzzz2Sora25Zzzz7Sora10Zzzz6Cakm53ZzzzCakm18Zzzz8Mahj39Zzzz9Shrd96ZzzzSinh20
   Zzzz11Khoj18ZzzzKhoj47Zzzz62Mult7ZzzzMultZzzzMult4ZzzzMult15ZzzzMult11Zzzz6Sind59Zzzz5Sind10
   Zzzz6Gran4ZzzzGran8Zzzz2Gran2Zzzz2Gran22ZzzzGran7ZzzzGran2ZzzzGran5ZzzzZinhGran9Zzzz2Gran2Zzzz2
   Gran3Zzzz2GranZzzz6GranZzzz5Gran7Zzzz2Gran7Zzzz3Gran5Zzzz139Newa92ZzzzNewa5Zzzz30Tirh72Zzzz8
   Tirh10Zzzz166Sidd54Zzzz2Sidd38Zzzz34Modi69Zzzz11Modi10Zzzz6Mong13Zzzz19Takr58Zzzz6Takr10Zzzz6
   Mymr20Zzzz28Ahom27Zzzz2Ahom15Zzzz4Ahom23Zzzz185Dogr60Zzzz100Wara83Zzzz12WaraDiak7Zzzz2DiakZzzz2
   Diak8ZzzzDiak2ZzzzDiak30ZzzzDiak2Zzzz2Diak12Zzzz9Diak10Zzzz70Nand8Zzzz2Nand46Zzzz2Nand11Zzzz27
   Zanb72Zzzz8Soyo83Zzzz13Cans16Pauc57Zzzz7Deva10Zzzz182Sunu34Zzzz14Sunu10Zzzz6Bhks9ZzzzBhks45Zzzz
   Bhks14Zzzz10Bhks29Zzzz3Marc32Zzzz2Marc22ZzzzMarc14Zzzz73Gonm7ZzzzGonm2ZzzzGonm44Zzzz3GonmZzzz
   Gonm2ZzzzGonm9Zzzz8Gonm10Zzzz6Gong6ZzzzGong2ZzzzGong37ZzzzGong2ZzzzGong6Zzzz7Gong10Zzzz310Maka25
   Zzzz7Kawi17ZzzzKawi41Zzzz3Kawi28Zzzz86LisuZzzz15Taml50Zzzz13TamlXsux922Zzzz102Xsux111ZzzzXsux5
   Zzzz11Xsux196Zzzz2636Cpmn99Zzzz13Egyp1110Zzzz10Egyp3995Zzzz5Hluw583Zzzz6841Gukh58Zzzz1734Bamu569
   Zzzz7Mroo31ZzzzMroo10Zzzz4Mroo2Tnsa79ZzzzTnsa10Zzzz6Bass30Zzzz2Bass6Zzzz10Hmng70Zzzz10Hmng10Zzzz
   Hmng7ZzzzHmng21Zzzz5Hmng19Zzzz432Krai58Zzzz198Medf91Zzzz101Plrd75Zzzz4Plrd57Zzzz7Plrd17Zzzz64
   TangNshuHani2KitsZzzz11Hani2Zzzz14Tang6136Zzzz8Tang768Kits470Zzzz42Tang9Zzzz8935Kana4ZzzzKana7
   ZzzzKana2ZzzzKanaHira287Kana3Zzzz15HiraZzzz29Hira3Zzzz2KanaZzzz14Kana4Zzzz8Nshu396Zzzz2308
   Dupl107Zzzz5Dupl13Zzzz3Dupl9Zzzz7Dupl10Zzzz2Dupl4Zyyy4Zzzz3932Zyyy250Zzzz6Zyyy436Zzzz76Zinh46
   Zzzz2Zinh23Zzzz9Zyyy116Zzzz60Zyyy246Zzzz10Zyyy39Zzzz2Zyyy62Zinh3Zyyy17Zinh8Zyyy2Zinh7Zyyy30Zinh4
   Zyyy61Zzzz21Grek70Zzzz122Zyyy20Zzzz12Zyyy20Zzzz12Zyyy87Zzzz9Zyyy25Zzzz135Zyyy85ZzzzZyyy71Zzzz
   Zyyy2Zzzz2ZyyyZzzz2Zyyy2Zzzz2Zyyy4ZzzzZyyy12ZzzzZyyyZzzzZyyy7ZzzzZyyy65ZzzzZyyy4Zzzz2Zyyy8Zzzz
   Zyyy7ZzzzZyyy28ZzzzZyyy4ZzzzZyyy5ZzzzZyyyZzzz3Zyyy7ZzzzZyyy340Zzzz2Zyyy292Zzzz2Zyyy50Sgnw652
   Zzzz15Sgnw5ZzzzSgnw15Zzzz1104Latn31Zzzz6Latn6Zzzz213Glag7ZzzzGlag17Zzzz2Glag7ZzzzGlag2ZzzzGlag5
   Zzzz5Cyrl62Zzzz33CyrlZzzz112Hmnp45Zzzz3Hmnp14Zzzz2Hmnp10Zzzz4Hmnp2Zzzz320Toto31Zzzz17Wcho58Zzzz5
   WchoZzzz464Nagm42Zzzz214Onao43Zzzz4OnaoZzzz480Ethi7ZzzzEthi4ZzzzEthi2ZzzzEthi15ZzzzMend197Zzzz2
   Mend16Zzzz41Adlm76Zzzz4Adlm10Zzzz4Adlm2Zzzz785Zyyy68Zzzz76Zyyy61Zzzz194Arab4ZzzzArab27ZzzzArab2
   ZzzzArabZzzz2ArabZzzzArab10ZzzzArab4ZzzzArabZzzzArabZzzz6ArabZzzz4ArabZzzzArabZzzzArabZzzzArab3
   ZzzzArab2ZzzzArabZzzz2ArabZzzzArabZzzzArabZzzzArabZzzzArabZzzzArab2ZzzzArabZzzz2Arab4ZzzzArab7
   ZzzzArab4ZzzzArab4ZzzzArabZzzzArab10ZzzzArab17Zzzz5Arab3ZzzzArab5ZzzzArab17Zzzz52Arab2Zzzz270
   Zyyy44Zzzz4Zyyy100Zzzz12Zyyy15Zzzz2Zyyy15ZzzzZyyy15ZzzzZyyy37Zzzz10Zyyy174Zzzz56Zyyy26HiraZyyy2
   Zzzz13Zyyy44Zzzz4Zyyy9Zzzz7Zyyy2Zzzz14Zyyy6Zzzz154Zyyy984Zzzz4Zyyy17Zzzz3Zyyy13Zzzz3Zyyy119Zzzz4
   Zyyy95Zzzz6Zyyy12Zzzz4ZyyyZzzz15Zyyy12Zzzz4Zyyy56Zzzz8Zyyy10Zzzz6Zyyy40Zzzz8Zyyy30Zzzz2Zyyy2
   Zzzz78Zyyy340Zzzz12Zyyy14Zzzz2Zyyy13Zzzz3Zyyy9Zzzz7Zyyy46ZzzzZyyy7Zzzz8Zyyy14Zzzz4Zyyy9Zzzz7
   Zyyy9Zzzz7Zyyy147ZzzzZyyy55Zzzz37Zyyy10Zzzz1030Hani42720Zzzz32Hani4154Zzzz6Hani222Zzzz2Hani5762
   Zzzz14Hani7473Zzzz15Hani622Zzzz2466Hani542Zzzz1506Hani4939Zzzz5Hani4192Zzzz711761ZyyyZzzz30
   Zyyy96Zzzz128Zinh240Zzzz196112"

def scriptTable : RunTable :=
  .decode scriptText

/-- The four-letter code of the script, `Latn` for one. -/
def script (c : Char) : String :=
  scriptTable.codeAt c

/-- The code of every script with its long names; `Zzzz`, for no script, has no name. -/
def scriptNames : List (String × List String) :=
  [("Adlm", ["Adlam"]),
    ("Ahom", ["Ahom"]),
    ("Hluw", ["Anatolian_Hieroglyphs"]),
    ("Arab", ["Arabic"]),
    ("Armn", ["Armenian"]),
    ("Avst", ["Avestan"]),
    ("Bali", ["Balinese"]),
    ("Bamu", ["Bamum"]),
    ("Bass", ["Bassa_Vah"]),
    ("Batk", ["Batak"]),
    ("Beng", ["Bengali"]),
    ("Bhks", ["Bhaiksuki"]),
    ("Bopo", ["Bopomofo"]),
    ("Brah", ["Brahmi"]),
    ("Brai", ["Braille"]),
    ("Bugi", ["Buginese"]),
    ("Buhd", ["Buhid"]),
    ("Cans", ["Canadian_Aboriginal"]),
    ("Cari", ["Carian"]),
    ("Aghb", ["Caucasian_Albanian"]),
    ("Cakm", ["Chakma"]),
    ("Cham", ["Cham"]),
    ("Cher", ["Cherokee"]),
    ("Chrs", ["Chorasmian"]),
    ("Zyyy", ["Common"]),
    ("Copt", ["Coptic", "Qaac"]),
    ("Xsux", ["Cuneiform"]),
    ("Cprt", ["Cypriot"]),
    ("Cpmn", ["Cypro_Minoan"]),
    ("Cyrl", ["Cyrillic"]),
    ("Dsrt", ["Deseret"]),
    ("Deva", ["Devanagari"]),
    ("Diak", ["Dives_Akuru"]),
    ("Dogr", ["Dogra"]),
    ("Dupl", ["Duployan"]),
    ("Egyp", ["Egyptian_Hieroglyphs"]),
    ("Elba", ["Elbasan"]),
    ("Elym", ["Elymaic"]),
    ("Ethi", ["Ethiopic"]),
    ("Gara", ["Garay"]),
    ("Geor", ["Georgian"]),
    ("Glag", ["Glagolitic"]),
    ("Goth", ["Gothic"]),
    ("Gran", ["Grantha"]),
    ("Grek", ["Greek"]),
    ("Gujr", ["Gujarati"]),
    ("Gong", ["Gunjala_Gondi"]),
    ("Guru", ["Gurmukhi"]),
    ("Gukh", ["Gurung_Khema"]),
    ("Hani", ["Han"]),
    ("Hang", ["Hangul"]),
    ("Rohg", ["Hanifi_Rohingya"]),
    ("Hano", ["Hanunoo"]),
    ("Hatr", ["Hatran"]),
    ("Hebr", ["Hebrew"]),
    ("Hira", ["Hiragana"]),
    ("Armi", ["Imperial_Aramaic"]),
    ("Zinh", ["Inherited", "Qaai"]),
    ("Phli", ["Inscriptional_Pahlavi"]),
    ("Prti", ["Inscriptional_Parthian"]),
    ("Java", ["Javanese"]),
    ("Kthi", ["Kaithi"]),
    ("Knda", ["Kannada"]),
    ("Kana", ["Katakana"]),
    ("Kawi", ["Kawi"]),
    ("Kali", ["Kayah_Li"]),
    ("Khar", ["Kharoshthi"]),
    ("Kits", ["Khitan_Small_Script"]),
    ("Khmr", ["Khmer"]),
    ("Khoj", ["Khojki"]),
    ("Sind", ["Khudawadi"]),
    ("Krai", ["Kirat_Rai"]),
    ("Laoo", ["Lao"]),
    ("Latn", ["Latin"]),
    ("Lepc", ["Lepcha"]),
    ("Limb", ["Limbu"]),
    ("Lina", ["Linear_A"]),
    ("Linb", ["Linear_B"]),
    ("Lisu", ["Lisu"]),
    ("Lyci", ["Lycian"]),
    ("Lydi", ["Lydian"]),
    ("Mahj", ["Mahajani"]),
    ("Maka", ["Makasar"]),
    ("Mlym", ["Malayalam"]),
    ("Mand", ["Mandaic"]),
    ("Mani", ["Manichaean"]),
    ("Marc", ["Marchen"]),
    ("Gonm", ["Masaram_Gondi"]),
    ("Medf", ["Medefaidrin"]),
    ("Mtei", ["Meetei_Mayek"]),
    ("Mend", ["Mende_Kikakui"]),
    ("Merc", ["Meroitic_Cursive"]),
    ("Mero", ["Meroitic_Hieroglyphs"]),
    ("Plrd", ["Miao"]),
    ("Modi", ["Modi"]),
    ("Mong", ["Mongolian"]),
    ("Mroo", ["Mro"]),
    ("Mult", ["Multani"]),
    ("Mymr", ["Myanmar"]),
    ("Nbat", ["Nabataean"]),
    ("Nagm", ["Nag_Mundari"]),
    ("Nand", ["Nandinagari"]),
    ("Talu", ["New_Tai_Lue"]),
    ("Newa", ["Newa"]),
    ("Nkoo", ["Nko"]),
    ("Nshu", ["Nushu"]),
    ("Hmnp", ["Nyiakeng_Puachue_Hmong"]),
    ("Ogam", ["Ogham"]),
    ("Olck", ["Ol_Chiki"]),
    ("Onao", ["Ol_Onal"]),
    ("Hung", ["Old_Hungarian"]),
    ("Ital", ["Old_Italic"]),
    ("Narb", ["Old_North_Arabian"]),
    ("Perm", ["Old_Permic"]),
    ("Xpeo", ["Old_Persian"]),
    ("Sogo", ["Old_Sogdian"]),
    ("Sarb", ["Old_South_Arabian"]),
    ("Orkh", ["Old_Turkic"]),
    ("Ougr", ["Old_Uyghur"]),
    ("Orya", ["Oriya"]),
    ("Osge", ["Osage"]),
    ("Osma", ["Osmanya"]),
    ("Hmng", ["Pahawh_Hmong"]),
    ("Palm", ["Palmyrene"]),
    ("Pauc", ["Pau_Cin_Hau"]),
    ("Phag", ["Phags_Pa"]),
    ("Phnx", ["Phoenician"]),
    ("Phlp", ["Psalter_Pahlavi"]),
    ("Rjng", ["Rejang"]),
    ("Runr", ["Runic"]),
    ("Samr", ["Samaritan"]),
    ("Saur", ["Saurashtra"]),
    ("Shrd", ["Sharada"]),
    ("Shaw", ["Shavian"]),
    ("Sidd", ["Siddham"]),
    ("Sgnw", ["SignWriting"]),
    ("Sinh", ["Sinhala"]),
    ("Sogd", ["Sogdian"]),
    ("Sora", ["Sora_Sompeng"]),
    ("Soyo", ["Soyombo"]),
    ("Sund", ["Sundanese"]),
    ("Sunu", ["Sunuwar"]),
    ("Sylo", ["Syloti_Nagri"]),
    ("Syrc", ["Syriac"]),
    ("Tglg", ["Tagalog"]),
    ("Tagb", ["Tagbanwa"]),
    ("Tale", ["Tai_Le"]),
    ("Lana", ["Tai_Tham"]),
    ("Tavt", ["Tai_Viet"]),
    ("Takr", ["Takri"]),
    ("Taml", ["Tamil"]),
    ("Tnsa", ["Tangsa"]),
    ("Tang", ["Tangut"]),
    ("Telu", ["Telugu"]),
    ("Thaa", ["Thaana"]),
    ("Thai", ["Thai"]),
    ("Tibt", ["Tibetan"]),
    ("Tfng", ["Tifinagh"]),
    ("Tirh", ["Tirhuta"]),
    ("Todr", ["Todhri"]),
    ("Toto", ["Toto"]),
    ("Ugar", ["Ugaritic"]),
    ("Vaii", ["Vai"]),
    ("Vith", ["Vithkuqi"]),
    ("Wcho", ["Wancho"]),
    ("Wara", ["Warang_Citi"]),
    ("Yezi", ["Yezidi"]),
    ("Yiii", ["Yi"]),
    ("Zanb", ["Zanabazar_Square"])]

end GraphQuery.Unicode
