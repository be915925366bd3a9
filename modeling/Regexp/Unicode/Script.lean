import Regexp.Unicode.NamedClass

/-!
# Scripts

The scripts of Unicode 15.0, by name and by code.
-/

namespace Regexp.Script

/-- Every script that characters have. -/
def all : List NamedClass := [
  ⟨["adlm", "adlam"], "1e100 4b 3 9 3 1"⟩,
  ⟨["aghb", "caucasianalbanian"], "fd30 33 a 0"⟩,
  ⟨["ahom"], "10f00 1a 1 e 3 16"⟩,
  ⟨["arab", "arabic"], "600 4 0 5 0 d 0 2 0 1f 0 9 a 19 0 6b 0 21 4f 2f ef 1e 0 1 5 49 0 1c ea4f 72 f 16a 1 4f 1 35 6 0 1f
f 6f 4 0 86 f62 1e 7d 2 deff 3 0 1a 0 1 0 0 1 0 0 9 0 3 0 0 0 0 5 0 3 0 0 0 0 0 0 2 0 1 0 0 1 0 0
0 0 0 0 0 0 0 0 1 0 0 1 3 0 6 0 3 0 3 0 0 0 9 0 10 4 2 0 4 0 10 33 1"⟩,
  ⟨["armi", "imperialaramaic"], "10040 15 0 8"⟩,
  ⟨["armn", "armenian"], "531 25 1 31 1 2 ed82 4"⟩,
  ⟨["avst", "avestan"], "10300 35 2 6"⟩,
  ⟨["bali", "balinese"], "1b00 4c 2 2e"⟩,
  ⟨["bamu", "bamum"], "a6a0 57 b907 238"⟩,
  ⟨["bass", "bassavah"], "162d0 1d 1 5"⟩,
  ⟨["batk", "batak"], "1bc0 33 7 3"⟩,
  ⟨["beng", "bengali"], "980 3 0 7 1 1 1 15 0 6 0 0 2 3 1 8 1 1 1 3 7 0 3 1 0 4 1 18"⟩,
  ⟨["bhks", "bhaiksuki"], "11400 8 0 2c 0 d 9 1c"⟩,
  ⟨["bopo", "bopomofo"], "2ea 1 2e18 2a 6f 1f"⟩,
  ⟨["brah", "brahmi"], "10800 4d 3 23 8 0"⟩,
  ⟨["brai", "braille"], "2800 ff"⟩,
  ⟨["bugi", "buginese"], "1a00 1b 1 1"⟩,
  ⟨["buhd", "buhid"], "1740 13"⟩,
  ⟨["cakm", "chakma"], "10900 34 0 11"⟩,
  ⟨["cans", "canadianaboriginal"], "1400 27f 22f 45 f9b9 f"⟩,
  ⟨["cari", "carian"], "faa0 30"⟩,
  ⟨["cham"], "aa00 36 8 d 1 9 1 3"⟩,
  ⟨["cher", "cherokee"], "13a0 55 1 5 9771 4f"⟩,
  ⟨["chrs", "chorasmian"], "107b0 1b"⟩,
  ⟨["copt", "coptic", "qaac"], "3e2 d 288f 73 4 6"⟩,
  ⟨["cpmn", "cyprominoan"], "12790 62"⟩,
  ⟨["cprt", "cypriot"], "10000 5 1 0 0 2b 0 1 2 0 1 0"⟩,
  ⟨["cyrl", "cyrillic"], "400 84 1 a8 174f 8 a1 0 4b 0 1066 1f 783f 5f 4f8d 1 e1ff 3d 20 0"⟩,
  ⟨["deva", "devanagari"], "900 50 3 e 1 19 9f5f 1f 69ff 9"⟩,
  ⟨["diak", "divesakuru"], "11100 6 1 0 1 7 0 1 0 1d 0 1 1 b 8 9"⟩,
  ⟨["dogr", "dogra"], "11000 3b"⟩,
  ⟨["dsrt", "deseret"], "fc00 4f"⟩,
  ⟨["dupl", "duployan"], "1b400 6a 4 c 2 8 6 9 1 3"⟩,
  ⟨["egyp", "egyptianhieroglyphs"], "12800 455"⟩,
  ⟨["elba", "elbasan"], "fd00 27"⟩,
  ⟨["elym", "elymaic"], "107e0 16"⟩,
  ⟨["ethi", "ethiopic"], "1200 48 0 3 1 6 0 0 0 3 1 28 0 3 1 20 0 3 1 6 0 0 0 3 1 e 0 38 0 3 1 42 1 1f 2 19 19e5 16 8 6 0 6
0 6 0 6 0 6 0 6 0 6 0 6 7d21 5 1 5 1 5 8 6 0 6 134b0 6 0 3 0 1 0 e"⟩,
  ⟨["geor", "georgian"], "10a0 25 0 0 4 0 1 2a 0 3 b8f 2a 1 2 103f 25 0 0 4 0"⟩,
  ⟨["glag", "glagolitic"], "2c00 5f 1ab9f 6 0 10 1 6 0 1 0 4"⟩,
  ⟨["gong", "gunjalagondi"], "11560 5 0 1 0 24 0 1 0 5 6 9"⟩,
  ⟨["gonm", "masaramgondi"], "11500 6 0 1 0 2b 2 0 0 1 0 8 7 9"⟩,
  ⟨["goth", "gothic"], "fb30 1a"⟩,
  ⟨["gran", "grantha"], "10b00 3 0 7 1 1 1 15 0 6 0 1 0 4 1 8 1 1 1 2 1 0 5 0 4 6 1 6 2 4"⟩,
  ⟨["grek", "greek"], "370 3 0 2 1 3 0 0 3 0 0 0 0 2 0 0 0 13 0 3e d f 1925 4 31 4 3 4 53 0 13f 15 1 5 1 25 1 5 1 7 0 0 0
0 0 0 0 1e 1 34 0 e 0 d 1 5 0 12 1 2 0 8 126 0 8a3d 0 4dd9 4e 10 0 d05e 45"⟩,
  ⟨["gujr", "gujarati"], "a81 2 0 8 0 2 0 15 0 6 0 1 0 4 1 9 0 2 0 2 1 0 e 3 1 b 6 6"⟩,
  ⟨["guru", "gurmukhi"], "a01 2 0 5 3 1 1 15 0 6 0 1 0 1 0 1 1 0 0 4 3 1 1 2 2 0 6 3 0 0 6 10"⟩,
  ⟨["hang", "hangul"], "1100 ff 1e2d 1 100 5d 70 1e 40 1e 76e0 1c 282 2ba3 b 16 3 30 1fa3 1e 2 5 1 5 1 5 1 2"⟩,
  ⟨["hani", "han"], "2e80 19 0 58 b d5 2e 0 0 0 18 8 d 3 3c3 19bf 3f 51ff 50ff 16d 1 69 7507 1 b 1 900d a6df 1f 1039 5
dd 1 1681 d 1d30 c1e 21d 5e1 134a 4 105f"⟩,
  ⟨["hano", "hanunoo"], "1720 14"⟩,
  ⟨["hatr", "hatran"], "100e0 12 0 1 4 4"⟩,
  ⟨["hebr", "hebrew"], "591 36 7 1a 3 5 ed27 19 0 4 0 0 0 1 0 1 0 9"⟩,
  ⟨["hira", "hiragana"], "3041 55 5 2 17760 11e 11 0 1c 2 40ac 0"⟩,
  ⟨["hluw", "anatolianhieroglyphs"], "13c00 246"⟩,
  ⟨["hmng", "pahawhhmong"], "16300 45 9 9 0 6 0 14 4 12"⟩,
  ⟨["hmnp", "nyiakengpuachuehmong"], "1d900 2c 2 d 1 9 3 1"⟩,
  ⟨["hung", "oldhungarian"], "10480 32 c 32 6 5"⟩,
  ⟨["ital", "olditalic"], "fb00 23 8 2"⟩,
  ⟨["java", "javanese"], "a980 4d 1 9 3 1"⟩,
  ⟨["kali", "kayahli"], "a900 2d 0 0"⟩,
  ⟨["kana", "katakana"], "30a1 59 1 2 ef f cf 2e 0 57 c40d 9 0 2c b051 3 0 6 0 1 0 0 11e 2 31 0 d 3"⟩,
  ⟨["kawi"], "11700 10 0 28 2 1b"⟩,
  ⟨["khar", "kharoshthi"], "10200 3 0 1 4 7 0 2 0 1c 1 2 3 9 6 8"⟩,
  ⟨["khmr", "khmer"], "1780 5d 1 9 5 9 1e5 1f"⟩,
  ⟨["khoj", "khojki"], "10a00 11 0 2e"⟩,
  ⟨["kits", "khitansmallscript"], "167e4 0 1b1a 1d5"⟩,
  ⟨["knda", "kannada"], "c80 c 0 2 0 16 0 9 0 4 1 8 0 2 0 3 6 1 5 1 0 3 1 9 0 2"⟩,
  ⟨["kthi", "kaithi"], "10880 42 9 0"⟩,
  ⟨["lana", "taitham"], "1a20 3e 0 1c 1 a 5 9 5 d"⟩,
  ⟨["laoo", "lao"], "e81 1 0 0 0 4 0 17 0 0 0 16 1 4 0 0 0 6 0 9 1 3"⟩,
  ⟨["latn", "latin"], "41 19 5 19 2e 0 e 0 4 16 0 1e 0 1c0 26 4 1a1a 25 5 30 4 3 4 c 0 45 40 ff 170 0 c 0 f c 8c 1 5 0 1a
0 10 28 ad6 1f 7aa1 65 2 3f 4 1 0 0 0 4 17 d 32f 2a 0 8 0 3 4795 6 419 19 5 19 824 5 0 29 0 8 d744
1e 5 5"⟩,
  ⟨["lepc", "lepcha"], "1c00 37 2 e 2 2"⟩,
  ⟨["limb", "limbu"], "1900 1e 0 b 3 b 3 0 2 b"⟩,
  ⟨["lina", "lineara"], "fe00 136 8 15 9 7"⟩,
  ⟨["linb", "linearb"], "f800 b 0 19 0 12 0 1 0 e 1 d 21 7a"⟩,
  ⟨["lisu"], "a4d0 2f 72af 0"⟩,
  ⟨["lyci", "lycian"], "fa80 1c"⟩,
  ⟨["lydi", "lydian"], "10120 19 4 0"⟩,
  ⟨["mahj", "mahajani"], "10950 26"⟩,
  ⟨["maka", "makasar"], "116e0 18"⟩,
  ⟨["mand", "mandaic"], "840 1b 1 0"⟩,
  ⟨["mani", "manichaean"], "102c0 26 3 b"⟩,
  ⟨["marc", "marchen"], "11470 1f 1 15 0 d"⟩,
  ⟨["medf", "medefaidrin"], "16640 5a"⟩,
  ⟨["mend", "mendekikakui"], "1e000 c4 1 f"⟩,
  ⟨["merc", "meroiticcursive"], "101a0 17 3 13 1 2d"⟩,
  ⟨["mero", "meroitichieroglyphs"], "10180 1f"⟩,
  ⟨["mlym", "malayalam"], "d00 c 0 2 0 32 0 2 0 5 3 f 1 19"⟩,
  ⟨["modi"], "10e00 44 a 9"⟩,
  ⟨["mong", "mongolian"], "1800 1 1 0 0 13 5 58 6 2a f5b4 c"⟩,
  ⟨["mroo", "mro"], "16240 1e 0 9 3 1"⟩,
  ⟨["mtei", "meeteimayek"], "aae0 16 c8 2d 1 9"⟩,
  ⟨["mult", "multani"], "10a80 6 0 0 0 3 0 e 0 a"⟩,
  ⟨["mymr", "myanmar"], "1000 9f 993f 1e 60 1f"⟩,
  ⟨["nagm", "nagmundari"], "1dcd0 29"⟩,
  ⟨["nand", "nandinagari"], "111a0 7 1 2d 1 a"⟩,
  ⟨["narb", "oldnortharabian"], "10280 1f"⟩,
  ⟨["nbat", "nabataean"], "10080 1e 7 8"⟩,
  ⟨["newa"], "10c00 5b 0 4"⟩,
  ⟨["nkoo", "nko"], "7c0 3a 1 2"⟩,
  ⟨["nshu", "nushu"], "167e1 0 418d 18b"⟩,
  ⟨["ogam", "ogham"], "1680 1c"⟩,
  ⟨["olck", "olchiki"], "1c50 2f"⟩,
  ⟨["orkh", "oldturkic"], "10400 48"⟩,
  ⟨["orya", "oriya"], "b01 2 0 7 1 1 1 15 0 6 0 1 0 4 1 8 1 1 1 2 6 2 3 1 0 4 1 11"⟩,
  ⟨["osge", "osage"], "fcb0 23 3 23"⟩,
  ⟨["osma", "osmanya"], "fc80 1d 1 9"⟩,
  ⟨["ougr", "olduyghur"], "10770 19"⟩,
  ⟨["palm", "palmyrene"], "10060 1f"⟩,
  ⟨["pauc", "paucinhau"], "112c0 38"⟩,
  ⟨["perm", "oldpermic"], "fb50 2a"⟩,
  ⟨["phag", "phagspa"], "a840 37"⟩,
  ⟨["phli", "inscriptionalpahlavi"], "10360 12 4 7"⟩,
  ⟨["phlp", "psalterpahlavi"], "10380 11 6 3 b 6"⟩,
  ⟨["phnx", "phoenician"], "10100 1b 2 0"⟩,
  ⟨["plrd", "miao"], "16700 4a 3 38 6 10"⟩,
  ⟨["prti", "inscriptionalparthian"], "10340 15 1 7"⟩,
  ⟨["rjng", "rejang"], "a930 23 a 0"⟩,
  ⟨["rohg", "hanifirohingya"], "10500 27 7 9"⟩,
  ⟨["runr", "runic"], "16a0 4a 2 a"⟩,
  ⟨["samr", "samaritan"], "800 2d 1 e"⟩,
  ⟨["sarb", "oldsoutharabian"], "10260 1f"⟩,
  ⟨["saur", "saurashtra"], "a880 45 7 b"⟩,
  ⟨["sgnw", "signwriting"], "1d000 28b e 4 0 e"⟩,
  ⟨["shaw", "shavian"], "fc50 2f"⟩,
  ⟨["shrd", "sharada"], "10980 5f"⟩,
  ⟨["sidd", "siddham"], "10d80 35 1 25"⟩,
  ⟨["sind", "khudawadi"], "10ab0 3a 4 9"⟩,
  ⟨["sinh", "sinhala"], "d81 2 0 11 2 17 0 8 0 0 1 6 2 0 3 5 0 0 0 7 5 9 1 2 fbeb 13"⟩,
  ⟨["sogd", "sogdian"], "10730 29"⟩,
  ⟨["sogo", "oldsogdian"], "10700 27"⟩,
  ⟨["sora", "sorasompeng"], "108d0 18 6 9"⟩,
  ⟨["soyo", "soyombo"], "11250 52"⟩,
  ⟨["sund", "sundanese"], "1b80 3f ff 7"⟩,
  ⟨["sylo", "sylotinagri"], "a800 2c"⟩,
  ⟨["syrc", "syriac"], "700 d 0 3b 1 2 10f a"⟩,
  ⟨["tagb", "tagbanwa"], "1760 c 0 2 0 1"⟩,
  ⟨["takr", "takri"], "10e80 39 5 9"⟩,
  ⟨["tale", "taile"], "1950 1d 1 4"⟩,
  ⟨["talu", "newtailue"], "1980 2b 3 19 5 a 2 1"⟩,
  ⟨["taml", "tamil"], "b82 1 0 5 2 2 0 3 2 1 0 0 0 1 2 1 2 2 2 b 3 4 2 2 0 3 1 0 5 0 d 14 10bc4 31 c 0"⟩,
  ⟨["tang", "tangut"], "167e0 0 1e 17f7 7 2ff 1ff 8"⟩,
  ⟨["tavt", "taiviet"], "aa80 42 17 4"⟩,
  ⟨["telu", "telugu"], "c00 c 0 2 0 16 0 f 1 8 0 2 0 3 6 1 0 2 1 0 1 3 1 9 6 8"⟩,
  ⟨["tfng", "tifinagh"], "2d30 37 6 1 d 0"⟩,
  ⟨["tglg", "tagalog"], "1700 15 8 0"⟩,
  ⟨["thaa", "thaana"], "780 31"⟩,
  ⟨["thai"], "e01 39 4 1b"⟩,
  ⟨["tibt", "tibetan"], "f00 47 0 23 3 26 0 23 0 e 0 6 3 1"⟩,
  ⟨["tirh", "tirhuta"], "10c80 47 7 9"⟩,
  ⟨["tnsa", "tangsa"], "16270 4e 0 9"⟩,
  ⟨["toto"], "1da90 1e"⟩,
  ⟨["ugar", "ugaritic"], "fb80 1d 0 0"⟩,
  ⟨["vaii", "vai"], "a500 12b"⟩,
  ⟨["vith", "vithkuqi"], "fd70 a 0 e 0 6 0 1 0 a 0 e 0 6 0 1"⟩,
  ⟨["wara", "warangciti"], "110a0 52 b 0"⟩,
  ⟨["wcho", "wancho"], "1dac0 39 4 0"⟩,
  ⟨["xpeo", "oldpersian"], "fba0 23 3 d"⟩,
  ⟨["xsux", "cuneiform"], "11800 399 65 6e 0 4 a c3"⟩,
  ⟨["yezi", "yezidi"], "10680 29 0 2 1 1"⟩,
  ⟨["yiii", "yi"], "a000 48c 2 36"⟩,
  ⟨["zanb", "zanabazarsquare"], "11200 47"⟩,
  ⟨["zinh", "inherited", "qaai"], "300 6f 114 1 1c3 a 19 0 2df 3 115a 1e 200 2 0 c 0 6 3 0 5 0 2 1 c5 3f 20b 1 c1 20 f38 3 6a 1 c564
f f d 3ce 0 e1 0 1059 0 bbc3 2d 1 16 21f 2 10 7 1 6 1d 3 c2f51 ef"⟩,
  ⟨["zyyy", "common"], "0 40 19 5 19 2e 0 e 0 4 16 0 1e 0 1c0 26 4 4 1 13 73 0 8 0 5 0 0 0 27c 0 5 0 d 0 2 0 1f 0 9b 0 203
0 80 1 4d8 0 194 3 121 0 5ee 2 46 1 ca 1 0 0 4cc 0 c 0 6 3 0 5 0 2 1 0 304 b 1 56 0 a 2 a 0 e 10
20 3e 25 0 2 1 5 0 1a 0 10 28 2 3 296 18 a 14 39f ff 273 1 1f 0 68 1ff 5d 191 b 3 4 0 0 0 18 e 7 3
3 5a 1 2 0 59 1 92 f 1f 23 3b 3f 1e 50 2e 0 57 a7 19bf 3f 58ff 21 65 2 a4 9 f3 0 9f 0 18a 0 d 1
49d1 1 cf 9 15 22 0 12 0 3 92 0 0 1f 19 5 19 a 9 0 2c 1 3f 6 0 6 9 4 101 2 3 2c 2 8 4f c 32 2c e3
1a b9a3 3 12ab 73 3b f5 9 26 1 3d 2 10 7 1 6 1d 3 3c d4 13 b 13 b 56 8 18 86 54 0 46 0 1 1 0 1 1 1
3 0 b 0 0 0 6 0 40 0 3 1 7 0 6 0 1b 0 3 0 4 0 0 2 6 0 153 1 123 1 31 1470 43 4b 3c 2c1 2b 3 63 b e
1 e 0 e 0 24 9 ad 37 19 0 1 c 2b 3 8 6 1 d 5 99 3d7 3 10 2 c 2 76 3 5e 5 b 3 0 e b 3 37 7 9 5 27 7
1d 1 1 4d 153 b d 1 c 2 8 6 2d 0 6 7 d 3 8 6 8 6 92 0 36 24 9 c0406 0 1d 5f"⟩]

/-- The members of a script by name. -/
def find? (name : String) : Option CharSet := NamedClass.find? all name

end Regexp.Script
