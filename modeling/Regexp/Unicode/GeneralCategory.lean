import Regexp.Unicode.NamedClass

/-!
# General categories

Every character has one general category, as of Unicode 15.0; the category of an
unassigned character is Unassigned.  Groups of categories have names of their
own.

## Main definitions

* `GeneralCategory.all` — the categories that characters have.
* `GeneralCategory.groups` — the named groups.
* `GeneralCategory.find?` — the members of a category or group by name.

## Design notes

Surrogates are not characters, so no class stands for them.
-/

namespace Regexp.GeneralCategory

/-- The general category Uppercase Letter. -/
def uppercaseLetter : NamedClass := ⟨["lu", "uppercaseletter"], "41 19 64 16 0 6 20 0 0 0 0 0 0 0 0 0 0 0 0 0 0 0 0 0 0 0 0 0 0 0 0 0 0 0 0 0 0 0 0 0 0 0 0 0 0 0 0
0 0 0 0 0 0 0 0 0 0 0 0 0 0 0 1 0 0 0 0 0 0 0 0 0 0 0 0 0 0 0 1 0 0 0 0 0 0 0 0 0 0 0 0 0 0 0 0 0
0 0 0 0 0 0 0 0 0 0 0 0 0 0 0 0 0 0 0 0 0 0 0 0 0 0 0 0 0 1 0 0 0 0 2 1 0 0 0 1 0 2 1 3 0 1 0 2 2
1 0 1 0 0 0 0 0 1 0 0 1 0 0 1 0 2 0 0 0 1 2 0 6 0 1 0 1 0 1 0 0 0 0 0 0 0 0 0 0 0 0 0 0 0 1 0 0 0
0 0 0 0 0 0 0 0 0 0 0 0 0 0 1 0 1 0 0 2 0 0 0 0 0 0 0 0 0 0 0 0 0 0 0 0 0 0 0 0 0 0 0 0 0 0 0 0 0
0 0 0 0 0 0 0 0 0 0 0 0 0 0 0 0 0 0 0 0 0 0 0 0 0 0 0 0 0 6 1 0 1 1 0 0 3 0 0 0 0 0 0 0 0 120 0 0
0 2 0 7 0 5 0 0 2 0 0 0 1 0 10 0 8 22 0 1 2 2 0 0 0 0 0 0 0 0 0 0 0 0 0 0 0 0 0 0 0 0 0 0 0 4 0 1
0 0 1 1 32 2f 0 0 0 0 0 0 0 0 0 0 0 0 0 0 0 0 0 0 0 0 0 0 0 0 0 0 0 0 0 0 0 0 0 8 0 0 0 0 0 0 0 0
0 0 0 0 0 0 0 0 0 0 0 0 0 0 0 0 0 0 0 0 0 0 0 0 0 0 0 0 0 0 0 0 0 0 0 0 0 0 0 0 0 0 0 0 0 0 1 0 0
0 0 0 0 0 0 0 0 0 0 1 0 0 0 0 0 0 0 0 0 0 0 0 0 0 0 0 0 0 0 0 0 0 0 0 0 0 0 0 0 0 0 0 0 0 0 0 0 0
0 0 0 0 0 0 0 0 0 0 0 0 0 0 0 0 0 0 0 0 0 0 0 0 0 0 0 0 0 0 0 0 0 0 0 0 0 0 0 0 0 0 0 0 0 0 0 0 0
0 0 0 0 0 0 0 0 1 25 b48 25 0 0 4 0 2d1 55 899 2a 1 2 13f 0 0 0 0 0 0 0 0 0 0 0 0 0 0 0 0 0 0 0 0
0 0 0 0 0 0 0 0 0 0 0 0 0 0 0 0 0 0 0 0 0 0 0 0 0 0 0 0 0 0 0 0 0 0 0 0 0 0 0 0 0 0 0 0 0 0 0 0 0
0 0 0 0 0 0 0 0 0 0 0 0 0 0 0 0 0 0 0 0 0 0 0 0 0 0 0 0 0 0 0 0 0 0 0 0 0 0 0 0 0 0 0 0 0 0 0 0 0
0 0 0 0 0 0 0 0 0 0 0 0 0 0 0 0 0 0 0 0 0 0 0 0 0 0 0 0 0 0 0 8 0 0 0 0 0 0 0 0 0 0 0 0 0 0 0 0 0
0 0 0 0 0 0 0 0 0 0 0 0 0 0 0 0 0 0 0 0 0 0 0 0 0 0 0 0 0 0 0 0 0 0 0 0 0 0 0 0 0 0 0 0 0 0 0 0 0
0 0 0 0 0 0 0 0 0 0 0 0 0 0 0 0 0 0 0 0 0 0 0 0 0 0 0 0 0 0 0 8 7 7 5 9 7 7 7 7 5 a 0 0 0 0 0 0 0
7 7 47 3 b 3 b 3 b 4 a 3 105 0 3 0 2 2 1 2 1 0 2 4 5 0 0 0 0 0 0 3 1 3 9 1 4 0 3c 0 a7b 2f 2f 0 0
2 1 0 0 0 0 0 0 3 0 0 1 0 7 2 0 0 0 0 0 0 0 0 0 0 0 0 0 0 0 0 0 0 0 0 0 0 0 0 0 0 0 0 0 0 0 0 0 0
0 0 0 0 0 0 0 0 0 0 0 0 0 0 0 0 0 0 0 0 0 0 0 0 0 0 0 0 0 0 0 0 0 0 0 0 0 0 0 0 0 0 0 0 0 0 0 0 0
0 0 0 0 0 0 0 0 0 0 0 0 0 0 0 7 0 0 0 3 0 794c 0 0 0 0 0 0 0 0 0 0 0 0 0 0 0 0 0 0 0 0 0 0 0 0 0 0
0 0 0 0 0 0 0 0 0 0 0 0 0 0 0 0 0 0 0 12 0 0 0 0 0 0 0 0 0 0 0 0 0 0 0 0 0 0 0 0 0 0 0 0 0 0 0 86
0 0 0 0 0 0 0 0 0 0 0 0 0 2 0 0 0 0 0 0 0 0 0 0 0 0 0 0 0 0 0 0 0 0 0 0 0 0 0 0 0 0 0 0 0 0 0 0 0
0 0 0 0 0 0 0 0 0 0 0 0 0 0 0 0 0 0 0 0 0 0 0 0 0 0 9 0 0 0 0 1 0 0 0 0 0 0 0 0 3 0 0 0 1 0 0 0 2
0 0 0 0 0 0 0 0 0 0 0 0 0 0 0 0 0 0 0 0 4 0 4 0 0 0 0 0 0 0 0 0 0 0 0 0 0 0 3 0 0 5 0 4 0 0 0 1b 0
4f2a 19 4c4 27 87 23 9b a 0 e 0 6 0 1 6e9 32 bec 1f 557f 1f 659f 19 19 19 19 19 19 0 0 1 1 0 1 1 1
3 0 7 19 19 19 1 0 3 1 7 0 6 1a 1 0 3 0 4 0 0 2 6 1a 19 19 19 19 19 19 19 19 19 19 19 1d 18 20 18
20 18 20 18 20 18 20 0 1134 21"⟩

/-- The general category Lowercase Letter. -/
def lowercaseLetter : NamedClass := ⟨["ll", "lowercaseletter"], "61 19 39 0 28 17 0 7 0 0 0 0 0 0 0 0 0 0 0 0 0 0 0 0 0 0 0 0 0 0 0 0 0 0 0 0 0 0 0 0 0 0 0 0 0 0 0
0 0 0 0 0 0 0 0 0 0 0 0 0 0 0 0 1 0 0 0 0 0 0 0 0 0 0 0 0 0 0 0 1 0 0 0 0 0 0 0 0 0 0 0 0 0 0 0 0
0 0 0 0 0 0 0 0 0 0 0 0 0 0 0 0 0 0 0 0 0 0 0 0 0 0 0 0 0 0 1 0 0 0 0 2 1 0 0 0 1 0 2 1 3 0 1 0 2
2 1 0 1 0 0 0 0 0 1 0 0 1 0 0 1 0 2 0 0 0 1 1 1 2 5 0 1 0 1 0 0 0 0 0 0 0 0 0 0 0 0 0 0 0 0 1 0 0
0 0 0 0 0 0 0 0 0 0 0 0 0 0 0 1 1 0 0 0 2 0 0 0 0 0 0 0 0 0 0 0 0 0 0 0 0 0 0 0 0 0 0 0 0 0 0 0 0
0 0 0 0 0 0 0 0 0 0 0 0 0 0 0 0 0 0 0 0 0 0 0 0 0 0 0 0 0 0 6 1 0 1 1 0 0 3 0 0 0 0 0 0 0 0 44 0
1a c0 0 0 0 2 0 2 2 11 0 1a 22 0 1 2 2 0 0 0 0 0 0 0 0 0 0 0 0 0 0 0 0 0 0 0 0 0 0 0 4 0 0 1 0 1 1
32 2f 0 0 0 0 0 0 0 0 0 0 0 0 0 0 0 0 0 0 0 0 0 0 0 0 0 0 0 0 0 0 0 0 0 0 8 0 0 0 0 0 0 0 0 0 0 0
0 0 0 0 0 0 0 0 0 0 0 0 0 0 0 0 0 0 0 0 0 0 0 0 0 0 0 0 0 0 0 0 0 0 0 0 0 0 0 0 0 0 1 0 0 0 0 0 0
0 0 0 0 0 0 1 0 0 0 0 0 0 0 0 0 0 0 0 0 0 0 0 0 0 0 0 0 0 0 0 0 0 0 0 0 0 0 0 0 0 0 0 0 0 0 0 0 0
0 0 0 0 0 0 0 0 0 0 0 0 0 0 0 0 0 0 0 0 0 0 0 0 0 0 0 0 0 0 0 0 0 0 0 0 0 0 0 0 0 0 0 0 0 0 0 0 0
0 0 0 0 0 2f 28 b46 2a 1 2 2f7 5 881 8 76 2b 3e c 0 21 65 0 0 0 0 0 0 0 0 0 0 0 0 0 0 0 0 0 0 0 0
0 0 0 0 0 0 0 0 0 0 0 0 0 0 0 0 0 0 0 0 0 0 0 0 0 0 0 0 0 0 0 0 0 0 0 0 0 0 0 0 0 0 0 0 0 0 0 0 0
0 0 0 0 0 0 0 0 0 0 0 0 0 0 0 0 0 0 0 0 0 0 0 0 0 0 0 0 0 0 0 0 0 0 0 0 0 0 0 0 0 0 0 0 0 0 0 0 0
0 0 0 0 0 0 0 0 0 0 0 0 0 0 0 0 0 0 0 0 0 0 0 0 0 0 0 0 0 0 8 0 0 0 0 0 0 0 0 0 0 0 0 0 0 0 0 0 0
0 0 0 0 0 0 0 0 0 0 0 0 0 0 0 0 0 0 0 0 0 0 0 0 0 0 0 0 0 0 0 0 0 0 0 0 0 0 0 0 0 0 0 0 0 0 0 0 0
0 0 0 0 0 0 0 0 0 0 0 0 0 0 0 0 0 0 0 0 0 0 0 0 0 0 0 0 0 0 8 7 5 9 7 7 7 7 5 9 7 7 7 7 d 1 7 7 7
7 7 7 4 0 1 5 0 2 2 0 1 7 3 1 1 7 7 9 2 0 1 111 0 2 1 2 0 1a 0 3 0 3 0 1 1 7 3 3 0 34 0 aaa 2f 0 0
2 1 0 0 0 0 0 0 3 0 0 1 0 5 4 0 0 0 0 0 0 0 0 0 0 0 0 0 0 0 0 0 0 0 0 0 0 0 0 0 0 0 0 0 0 0 0 0 0
0 0 0 0 0 0 0 0 0 0 0 0 0 0 0 0 0 0 0 0 0 0 0 0 0 0 0 0 0 0 0 0 0 0 0 0 0 0 0 0 0 0 0 0 0 0 0 0 0
0 0 0 0 0 0 0 0 0 0 0 0 0 0 0 1 6 0 0 0 3 0 b 25 0 0 4 0 7912 0 0 0 0 0 0 0 0 0 0 0 0 0 0 0 0 0 0
0 0 0 0 0 0 0 0 0 0 0 0 0 0 0 0 0 0 0 0 0 0 0 0 0 0 0 12 0 0 0 0 0 0 0 0 0 0 0 0 0 0 0 0 0 0 0 0 0
0 0 0 0 0 0 86 0 0 0 0 0 0 0 0 0 0 0 0 2 0 0 0 0 0 0 0 0 0 0 0 0 0 0 0 0 0 0 0 0 0 0 0 0 0 0 0 0 0
0 0 0 0 0 0 0 0 0 0 0 0 0 0 0 0 0 0 0 0 0 0 0 0 0 0 0 0 0 0 0 0 0 0 7 0 0 0 0 1 0 0 0 0 0 0 0 0 0
3 0 0 0 1 0 0 2 0 0 0 0 0 0 0 0 0 0 0 0 0 0 0 0 0 0 0 0 4 0 4 0 0 0 0 0 0 0 0 0 0 0 0 0 0 0 3 0 0
0 5 0 0 0 0 0 0 0 0 0 1b 0 2 0 334 2a 4 8 6 4f 473f 6 b 4 428 19 4cc 27 87 23 9a a 0 e 0 6 0 1 702
32 bcc 1f 557f 1f 6599 19 19 6 0 11 19 19 19 3 0 0 0 6 0 a 19 19 19 19 19 19 19 19 19 19 19 19 19
19 19 19 19 1b 1b 18 0 5 19 18 0 5 19 18 0 5 19 18 0 5 19 18 0 5 0 0 733 9 0 13 5 5 9f6 21"⟩

/-- The general category Titlecase Letter. -/
def titlecaseLetter : NamedClass := ⟨["lt", "titlecaseletter"], "1c5 0 1 0 1 0 25 0 1d94 7 7 7 7 7 b 0 e 0 2e 0"⟩

/-- The general category Modifier Letter. -/
def modifierLetter : NamedClass := ⟨["lm", "modifierletter"], "2b0 11 3 b d 4 6 0 0 0 84 0 4 0 1dd 0 e5 0 a3 1 10c 1 3 0 1e 0 8 0 2 0 9f 0 a6 0 4d3 0 7e 0 234 0
6d9 0 6a 0 262 0 1cf 5 ad 3e c 0 21 24 2b0 0 c 0 f c bde 1 f0 0 be 0 1d4 0 2a 4 4 0 60 1 5c 2 6f15
0 4e1 5 10d 0 71 0 1b 1 78 8 4f 0 16 0 68 2 2 1 1d4 0 15 0 88 0 6b 0 14 1 66 3 8 0 4c05 0 2c 1 7df
5 0 29 0 8 6384 3 44e c 3f 1 0 0 400b 3 0 6 0 1 3030 3d c8 6 3ac 0 45e 0"⟩

/-- The general category Other Letter. -/
def otherLetter : NamedClass := ⟨["lo", "otherletter"], "aa 0 e 0 ff 0 3 3 cf 0 33a 1a 3 3 2c 1f 0 9 22 1 0 62 0 0 17 1 9 2 1 0 f 0 0 1d 1c 58 a 0 17 20 14
15 29 18 6 a 4 17 0 5 10 28 3a 35 2 0 11 0 6 9 f e 3 7 1 1 1 15 0 6 0 0 2 3 2 0 f 0 c 1 0 2 d 1 9
0 7 5 3 1 1 15 0 6 0 1 0 1 0 1 1e 3 0 0 12 2 f 8 0 2 0 15 0 6 0 1 0 4 2 0 11 0 e 1 16 0 a 7 1 1 1
15 0 6 0 1 0 4 2 0 1d 1 0 2 e 0 10 0 0 5 2 2 0 3 2 1 0 0 0 1 2 1 2 2 2 b 15 0 33 7 0 2 0 16 0 f 2
0 19 2 1 0 1 1 1d 0 3 7 0 2 0 16 0 9 0 4 2 0 1e 1 0 1 e 1 10 8 0 2 0 28 1 0 f 0 4 2 7 2 17 5 4 11
2 17 0 8 0 0 1 6 39 2f 0 1 b 5 3a 1 0 0 0 4 0 17 0 0 0 9 0 1 8 0 1 4 16 3 1f 0 3e 7 0 23 1a 4 72
2a 13 0 f 5 3 3 2 0 2 1 6 2 3 c b 0 70 148 0 3 1 6 0 0 0 3 1 28 0 3 1 20 0 3 1 6 0 0 0 3 1 e 0 38
0 3 1 42 24 f 70 26b 1 10 0 19 4 4a 5 7 6 11 c 12 d 11 d c 0 2 e 33 27 0 42 22 0 34 6 4 1 21 0 0 4
45 9 1e 30 1d 1 4 a 2b 3 19 35 16 8 34 af 2e 10 7 35 1d c 1 9 2b 19 23 28 2 9 1d 70 3 0 5 0 1 2 0
439 3 bf6 37 17 16 8 6 0 6 0 6 0 6 0 6 0 6 0 6 0 6 226 0 34 0 3 55 7 0 0 59 3 0 4 2a 0 5d 10 1f 2f
f 1ff 19bf 3f 5214 0 476 42 27 7 10b 3 f 9 1 41 0 30 45 a8 0 66 0 2 6 0 2 0 3 0 16 1c 33 d 31 3d 5
2 0 0 1 a 1b 9 16 18 1c 6 2e 2c 4 1 8 9 4 0 28 16 2 0 7 13 f 0 5 2 0 2 31 0 0 2 1 1 4 1 0 0 0 17 1
2 a 6 0 d 5 1 5 1 5 8 6 0 6 90 22 1c 2ba3 b 16 3 30 1903 16d 1 69 42 0 0 9 0 c 0 4 0 0 0 1 0 1 0
6b 20 16a 11 3f 1 35 27 b 73 4 0 86 68 9 0 2c 1 1e 2 5 1 5 1 5 1 2 22 b 0 19 0 12 0 1 0 e 1 d 21
7a 184 1c 2 30 2e 1f c 13 0 7 5 25 9 1d 1 23 3 7 7f 4d 61 27 7 33 9b 136 8 15 9 7 97 5 1 0 0 2b 0
1 2 0 1 16 9 16 8 1e 40 12 0 1 9 15 9 19 45 37 5 1 3f 0 e 3 0 2 0 1c 29 1c 2 1c 22 7 0 1b 1a 35 9
15 9 12 c 11 6d 48 b6 23 15b 29 5 1 4d 1c 9 0 7 15 29 11 2d 14 1a 16 b 34 38 1 1 0 c 2c 1f 18 19
23 1c 0 1 0 7 22 2 0 b 2f d 3 14 0 0 0 22 11 0 18 12 1 3e 6 0 0 0 3 0 e 0 9 6 2e 25 7 1 1 1 15 0 6
0 1 0 4 2 0 11 0 b 4 9d 34 11 3 13 2 1d 2f 13 1 0 0 b7 2e 28 3 23 2f 13 0 3a 2a c 0 46 1a 24 6 b8
2b d2 7 1 0 1 7 0 1 0 17 e 0 0 0 5d 7 1 26 f 0 0 0 1b 0 9 27 6 0 14 0 a 2d 12 0 11 48 106 8 0 24
10 0 30 1d 6f 6 0 1 0 25 14 0 18 5 0 1 0 1f d 0 146 12 e 0 0 c 0 21 7b 0 4e 399 e5 c3 a4b 60 e 42f
10 5 fb8 246 21b8 238 6 1e 10 4e 10 1d 11 2f 32 14 4 12 36f 4a 4 0 ae 17f7 7 4d5 29 8 22f6 122 e 0
1c 2 1 0 d 3 7 18b 903 6a 4 c 2 8 6 9 226f 0 1f4 2c 20 0 140 1d 11 2b 1e3 1a 2f4 6 0 3 0 1 0 e 0
c4 53a 3 0 1a 0 1 0 0 1 0 0 9 0 3 0 0 0 0 5 0 3 0 0 0 0 0 0 2 0 1 0 0 1 0 0 0 0 0 0 0 0 0 0 1 0 0
1 3 0 6 0 3 0 3 0 0 0 9 0 10 4 2 0 4 0 10 1143 a6df 1f 1039 5 dd 1 1681 d 1d30 c1e 21d 5e1 134a 4
105f"⟩

/-- The general category Nonspacing Mark. -/
def nonspacingMark : NamedClass := ⟨["mn", "nonspacingmark"], "300 6f 112 4 108 2c 0 0 0 1 0 1 0 0 47 a 2f 14 f 0 64 6 1 5 1 1 0 3 22 0 1d 1a 5a a 39 8 8 0 17 3
0 8 0 2 0 4 2a 2 3b 7 29 17 0 1f 36 0 0 0 3 7 3 0 2 6 9 1 1c 0 39 0 3 3 7 0 13 1 19 0 1 1 38 0 3 1
3 1 1 2 2 0 1d 1 2 0 a 1 38 0 3 4 0 1 3 0 13 1 15 5 0 0 39 0 1 0 0 3 7 0 6 1 a 1 1d 0 3c 0 b 0 31
0 2 0 36 0 0 2 4 2 0 3 6 1 a 1 1c 0 39 0 1 0 5 0 4 1 13 1 1b 1 38 1 3 3 7 0 13 1 1c 0 47 0 6 2 0 0
59 0 1 6 b 7 61 0 1 8 a 6 48 1 1a 0 0 0 0 0 36 d 0 4 0 1 4 a 0 23 8 0 65 3 0 5 0 1 1 1 18 1 3 2 f
3 c 0 1 1 5 0 e 0 2be 2 3b1 2 1c 1 1d 1 1d 1 3f 1 0 6 7 0 1 a 8 0 2c 2 0 0 74 1 21 0 75 2 3 1 8 0
5 2 da 1 1 0 39 0 0 6 0 0 0 0 1 7 5 9 1 0 2f d 0 f 30 3 2f 0 0 4 0 0 4 0 27 8 b 1 1f 3 1 1 0 2 37
0 0 1 2 0 0 2 39 7 1 1 97 2 0 c 0 6 3 0 5 0 2 1 c5 3f 2cf c 3 0 2 b bfd 2 8c 0 5f 1f 229 3 6a 1
75d3 0 3 9 1f 1 4f 1 10f 0 2 0 3 0 18 1 4 0 96 1 19 11 c 0 25 7 18 a 2d 2 2f 0 1 3 1 1 26 0 42 5 1
1 1 1 b 0 7 0 2e 0 32 0 0 2 1 1 4 1 0 0 29 1 7 0 ed 0 1 0 3 0 472f 0 2e0 f f f 3cc 0 e1 0 94 4 685
2 0 1 4 3 27 2 3 0 a4 1 23c 3 182 1 4f 2 45 a 30 3 7a 0 35 e 28 0 1 1 9 2 30 3 1 1 6 0 3c 2 23 4 0
7 3d 0 b 1 33 8 9 3 1 0 5e 2 1 0 0 1 5 0 1 0 9c 0 2 7 14 1 38 1 2 0 24 6 2 4 c2 7 1 2 0 0 16 0 53
5 0 0 3 1 0 1 ed 3 5 1 0 1 1a 1 54 7 1 0 0 1 69 0 0 0 1 5 0 0 64 2 1 3 0 4 102 8 0 1 ff 1 0 0 3 0
8f 3 1 1 3 0 1f 9 27 5 1 3 7 0 8 5 1 2 2d c 0 1 195 6 0 5 0 0 51 15 1 6 0 1 0 1 79 5 2 0 0 1 0 6 0
0 47 1 2 0 0 0 15a 1 a 1 33 4 4 0 0 0 14fc 0 5 e 3699 4 3a 6 417 0 3e 3 50 0 4cb7 1 1260 2d 1 16
21f 2 10 7 1 6 1d 3 93 2 7ba 36 3 31 7 0 d 0 15 4 0 e 54f 6 0 10 1 6 0 1 0 4 63 0 9f 6 176 0 3c 3
1fb 3 3df 6 6c 6 c17b4 ef"⟩

/-- The general category Spacing Mark. -/
def spacingMark : NamedClass := ⟨["mc", "spacingmark"], "903 0 36 0 1 2 7 3 0 1 31 1 39 2 5 1 1 1 9 0 2a 0 39 2 41 0 39 2 7 0 0 1 34 1 39 0 0 0 5 1 1 1 9 0
65 1 0 1 2 2 0 2 9 0 28 2 3c 3 3c 1 39 0 0 4 1 1 0 1 8 1 1b 0 d 1 39 2 4 2 0 2 9 0 29 1 4a 2 5 7
11 1 149 1 3e 0 aa 1 3 0 5 0 1 1 18 1 9 2 1 6 14 1 1 5 1 0 9 2 677 0 1d 0 80 0 6 7 0 1 159 3 1 2 3
1 0 5 df 1 39 0 0 0 8 0 0 1 7 5 90 0 2f 0 4 0 0 4 0 1 3c 0 1d 0 3 1 1 0 3b 0 1 2 0 0 2 1 2f 7 7 1
aa 0 14 0 1335 1 77f2 1 1 0 57 1 31 f 8d 1 2e 0 2f 1 3 1 1 2 6d 1 1 1 17 0 2c 0 0 0 6c 0 1 1 4 0
ec 1 0 1 0 1 0 0 5c12 0 0 0 7e 0 2c 2 3 1 72 0 17 1 3a 0 2f 2 8 1 c 0 5c 2 2 1 0 0 a9 2 1e 1 39 1
0 3 1 1 1 2 8 0 9 1 d0 2 7 1 2 0 69 2 5 0 0 3 1 0 ec 2 5 3 1 0 70 2 7 1 0 0 6c 0 0 1 5 0 68 1 3 0
104 2 8 0 f6 5 0 1 3 0 1 0 0 0 8d 2 7 3 3 0 53 0 1c 1 3d 0 196 0 d 0 69 0 6 0 1 0 d4 4 3 1 0 0 15d
1 b 0 2f 1 7 1 0 0 500e 36 67 1 6172 1 5 5"⟩

/-- The general category Enclosing Mark. -/
def enclosingMark : NamedClass := ⟨["me", "enclosingmark"], "488 1 1633 0 61d 3 0 2 858a 2"⟩

/-- The general category Decimal Number. -/
def decimalNumber : NamedClass := ⟨["nd", "decimalnumber", "digit"], "30 9 625 9 85 9 c5 9 19b 9 75 9 75 9 75 9 75 9 75 9 75 9 75 9 75 9 75 9 5f 9 75 9 45 9 115 9 45 9
745 9 25 9 12b 9 7f 9 a5 9 5 9 b5 9 55 9 85 9 5 9 89c5 9 2a5 9 25 9 c5 9 15 9 55 9 195 9 4b15 9
585 9 885 9 32b 9 7f 9 3b 9 8f 9 115 9 155 9 75 9 175 9 65 9 65 9 1a5 9 65 9 2f5 9 f5 9 45 9 1a5 9
4b05 9 55 9 85 9 6c73 31 93f 9 1a5 9 1f5 9 455 9 1295 9"⟩

/-- The general category Letter Number. -/
def letterNumber : NamedClass := ⟨["nl", "letternumber"], "16ee 2 a6e 22 1 3 e7d 0 18 8 d 2 76aa 9 524f 34 1cb 0 7 0 85 4 2029 6e"⟩

/-- The general category Other Number. -/
def otherNumber : NamedClass := ⟨["no", "othernumber"], "b2 1 4 0 1 2 934 5 177 5 77 2 84 6 d8 6 10 8 1b0 9 434 13 472 9 1df 0 694 0 2 5 5 9 c5 f 28 0 2d5
3b 4d 15 275 1d 568 0 493 3 89 9 1d 7 0 e 1f 9 26 e 756f 5 50d0 2c 40 3 10 1 154 1a 23 3 533 7 18
6 26 8 4a 4 15 5 9f 1 1 f 1 2d 3f 8 33 1 1d 2 4a 4 67 7 17 7 28 6 149 5 15f 1e 9d 9 29 3 6f 6 85
13 17a 13 544 1 1ad 8 366 12 352 14 4b85 6 31d 16 6428 13 b 13 6b 18 154d 8 3a0 3a 0 2 0 3 4b 2c 0
e 3c1 c"⟩

/-- The general category Connector Punctuation. -/
def connectorPunctuation : NamedClass := ⟨["pc", "connectorpunctuation"], "5f 0 1fde 1 12 0 d5dd 1 17 2 ee 0"⟩

/-- The general category Dash Punctuation. -/
def dashPunctuation : NamedClass := ⟨["pd", "dashpunctuation"], "2d 0 55b 0 32 0 e40 0 404 0 808 5 e00 0 1 0 1e 1 3 0 1b 0 1bd 0 12 0 6e 0 c58f 1 24 0 9 0 a8 0 f9e
0"⟩

/-- The general category Open Punctuation. -/
def openPunctuation : NamedClass := ⟨["ps", "openpunctuation"], "28 0 31 0 1e 0 ebd 0 0 0 75d 0 97d 0 2 0 25 0 36 0 e 0 279 0 0 0 1d 0 43d 0 0 0 0 0 0 0 0 0 0 0 0
0 4f 0 1f 0 0 0 0 0 0 0 0 0 193 0 0 0 0 0 0 0 0 0 0 0 0 0 0 0 0 0 0 0 0 0 3f 0 0 0 20 0 424 0 0 0
0 0 0 0 18 0 11 0 0 0 0 0 0 0 1ab 0 0 0 0 0 0 0 0 0 2 0 0 0 0 0 0 0 1 0 c520 0 d6 0 1c 0 0 0 0 0 0
0 0 0 0 0 0 0 0 0 2 0 10 0 0 0 0 0 a9 0 31 0 1e 0 2 0 1 0"⟩

/-- The general category Close Punctuation. -/
def closePunctuation : NamedClass := ⟨["pe", "closepunctuation"], "29 0 32 0 1e 0 ebc 0 0 0 75d 0 9a8 0 36 0 e 0 279 0 0 0 1d 0 43d 0 0 0 0 0 0 0 0 0 0 0 0 0 4f 0 1f
0 0 0 0 0 0 0 0 0 193 0 0 0 0 0 0 0 0 0 0 0 0 0 0 0 0 0 0 0 0 0 3f 0 0 0 20 0 424 0 0 0 0 0 0 0 2b
0 0 0 0 0 0 0 1ab 0 0 0 0 0 0 0 0 0 2 0 0 0 0 0 0 0 1 1 c51d 0 d8 0 1c 0 0 0 0 0 0 0 0 0 0 0 0 0 0
0 2 0 10 0 0 0 0 0 a9 0 32 0 1e 0 1 0 1 0"⟩

/-- The general category Initial Punctuation. -/
def initialPunctuation : NamedClass := ⟨["pi", "initialpunctuation"], "ab 0 1f6b 0 1 1 1 0 18 0 dc7 0 0 0 3 0 1 0 e 0 2 0"⟩

/-- The general category Final Punctuation. -/
def finalPunctuation : NamedClass := ⟨["pf", "finalpunctuation"], "bb 0 1f5c 0 2 0 1b 0 dc7 0 0 0 3 0 1 0 e 0 2 0"⟩

/-- The general category Other Punctuation. -/
def otherPunctuation : NamedClass := ⟨["po", "otherpunctuation"], "21 2 0 2 1 0 0 0 0 1 9 1 2 1 1a 0 43 0 4 0 d 1 6 0 2bd 0 7 0 1d1 5 28 0 35 0 1 0 1 0 2b 1 13 1 0 1
c 0 0 2 49 3 65 0 2a d e8 2 35 e 1e 0 104 1 9 0 8b 0 77 0 78 0 185 0 b 0 16e 0 59 0 9 1 a7 e 0 0
6f 0 49 4 3 1 6e 5 aa 0 263 8 304 0 7b 2 46 1 9c 2 0 2 24 5 0 3 138 1 d7 1 7f 6 0 5 ab 6 1b 1 7c 3
3a 4 3d 1 3f 7 a 0 341 1 7 7 7 8 1 3 1 2 2 a 0 0 0 9 c99 3 0 1 6f 0 8e 1 3 2 1 0 1 8 0 1 0 0 1 1 9
4 0 9 1 3 0 0 0 c 1 2 1ab 2 38 0 bc 0 7401 1 10c 2 62 0 9 0 72 5 17b 3 55 1 27 2 0 0 30 1 2e 0 60
c f 1 7b 3 7d 1 f 1 f8 0 4a23 6 1 0 15 0 13 1 1 3 2 2 0 3 6 2 5 0 0 1 94 2 0 2 1 0 0 0 0 1 9 1 2 1
1a 0 23 0 1 1 199 2 29b 0 2f 0 19d 0 2e6 0 c6 0 1e 0 10f 8 25 0 6f 6 41 6 58 3 3b7 4 2b 3 bc 6 6c
1 0 3 7d 3 2f 1 4e 3 3 0 c 0 0 2 57 5 6a 0 1a0 4 9 1 0 0 67 0 f9 16 68 2 1b c 4b 0 81 2 fb 0 107 2
9a 0 5b 7 52 2 0 4 5c 9 136 4 29 1 284 1 49 c ae 0 46f 4 b7b 1 3a7a 1 84 0 40 4 7 0 351 3 146 0
4cbb 0 1de6 4 ed1 1"⟩

/-- The general category Math Symbol. -/
def mathSymbol : NamedClass := ⟨["sm", "mathsymbol"], "2b 0 f 2 3c 0 0 0 2c 0 3 0 24 0 1e 0 2fd 0 20e 2 1a3a 0 c 0 26 2 c 2 8a 0 26 4 5 0 43 4 4 1 3 0 1
0 1 0 6 0 1e 1 1 0 0 0 1e 10b 1f 1 59 0 1d 18 27 5 1d4 0 8 0 35 7 6e 0 14f 4 1 1e 9 f ff 82 15 3e
3 1f 1 101 2f 14 1 5 c7db 0 337 0 0 2 a3 0 f 2 3c 0 0 0 82 0 5 3 d6d3 0 18 0 1e 0 18 0 1e 0 18 0
1e 0 18 0 1e 0 18 0 172b 1"⟩

/-- The general category Currency Symbol. -/
def currencySymbol : NamedClass := ⟨["sc", "currencysymbol"], "24 0 7c 3 4e8 0 7a 0 1f1 1 1f1 1 6 0 f4 0 106 0 244 0 99a 0 8c3 20 8776 0 4dc2 0 6b 0 99 0 da 1 2
1 1ff5 3 c31d 0 9af 0"⟩

/-- The general category Modifier Symbol. -/
def modifierSymbol : NamedClass := ⟨["sk", "modifiersymbol"], "5e 0 0 0 46 0 5 0 3 0 2 0 208 3 b d 4 6 0 0 0 10 74 0 d 1 501 0 1733 0 0 2 a 2 c 2 c 2 c 1 109b 1
7662 16 8 1 66 1 3cf 0 d 1 4845 10 37a 0 0 0 a1 0 f416 4"⟩

/-- The general category Other Symbol. -/
def otherSymbol : NamedClass := ⟨["so", "othersymbol"], "a6 0 1 0 3 0 0 0 3d0 0 109 1 7e 1 cd 0 9 0 12 1 f6 0 202 0 174 0 81 5 0 0 83 0 ce 0 28 0 186 2 e 0
0 2 1 5 13 0 0 0 0 0 84 7 0 5 0 1 4 3 c4 1 2ef 9 2d2 0 2d1 0 9c 21 160 9 8 8 582 1 0 3 0 1 9 0 0 1
5 5 0 0 0 0 0 0 3 0 a 1 d 0 0 1 0 0 39 1 8 4 1 3 0 1 0 1 0 6 0 1e 1 1 0 0 0 1e 10b 7 3 13 1 6 1 50
0 1d 18 27 5 44 18 a 50 4d 15 b6 0 8 0 35 7 6e 0 f7 2b 2b 3f ff 1ff 2f 14 1 5 26 1 1f 0 68 e4 5
164 1 2d 19 0 58 b d5 19 b 7 0 c 1 b 0 14 1 5 1 14f 1 3 9 1f 23 1b 1e a 1d 7 0 e 1f 9 26 e 13f
19bf 3f 568f 36 360 3 9 1 0 0 23c 2 4ac5 f 7e 0 2c 2 1e3 0 2 0 3 1 c 1 138 8 38 10 1 2 0 c 2 0 2e
2c 679 1 24e 0 c75 0 894 7 3 10 4b49 3 4 0 5155 0 12b2 73 3b f5 9 26 1 3b 4 2 15 1 6 1d 3 3c 14 41
2 0 b9 56 4a8 1ff 36 3 31 7 0 d 0 1 6c7 0 b5b 0 80 0 2d0 2b 3 63 b e 1 e 0 e 0 24 16 a0 37 1c c 2b
3 8 6 1 d 5 99 fa 4 2d7 3 10 2 c 2 76 3 5e 5 b 3 0 e b 3 37 7 9 5 27 7 1d 1 1 4d 153 b d 1 c 2 8 6
2d 0 6 7 d 3 8 6 8 6 92 0 36"⟩

/-- The general category Space Separator. -/
def spaceSeparator : NamedClass := ⟨["zs", "spaceseparator"], "20 0 7e 0 15de 0 97e a 23 0 2e 0 f9f 0"⟩

/-- The general category Line Separator. -/
def lineSeparator : NamedClass := ⟨["zl", "lineseparator"], "2028 0"⟩

/-- The general category Paragraph Separator. -/
def paragraphSeparator : NamedClass := ⟨["zp", "paragraphseparator"], "2029 0"⟩

/-- The general category Control. -/
def control : NamedClass := ⟨["cc", "control", "cntrl"], "0 1f 5e 20"⟩

/-- The general category Format. -/
def format : NamedClass := ⟨["cf", "format"], "ad 0 551 5 15 0 bf 0 30 0 17f 1 4f 0 f2a 0 7fb 4 19 4 30 4 0 9 d68e 0 f8 2 10c0 0 e 0 2361 f 885f
3 14ce 7 c2e85 0 1d 5f"⟩

/-- The general category Unassigned. -/
def unassigned : NamedClass := ⟨["cn", "unassigned"], "378 1 5 3 6 0 0 0 13 0 18c 0 25 1 31 1 2 0 36 7 1a 3 5 a 10d 0 3b 1 64 d 3a 1 30 1 e 0 1b 1 0 0 a
4 1e 0 1 5 eb 0 7 1 1 1 15 0 6 0 0 2 3 1 8 1 1 1 3 7 0 3 1 0 4 1 18 1 2 0 5 3 1 1 15 0 6 0 1 0 1 0
1 1 0 0 4 3 1 1 2 2 0 6 3 0 0 6 10 9 2 0 8 0 2 0 15 0 6 0 1 0 4 1 9 0 2 0 2 1 0 e 3 1 b 6 6 0 2 0
7 1 1 1 15 0 6 0 1 0 4 1 8 1 1 1 2 6 2 3 1 0 4 1 11 9 1 0 5 2 2 0 3 2 1 0 0 0 1 2 1 2 2 2 b 3 4 2
2 0 3 1 0 5 0 d 14 4 c 0 2 0 16 0 f 1 8 0 2 0 3 6 1 0 2 1 0 1 3 1 9 6 15 0 2 0 16 0 9 0 4 1 8 0 2
0 3 6 1 5 1 0 3 1 9 0 2 b c 0 2 0 32 0 2 0 5 3 f 1 19 0 2 0 11 2 17 0 8 0 0 1 6 2 0 3 5 0 0 0 7 5
9 1 2 b 39 3 1c 24 1 0 0 0 4 0 17 0 0 0 16 1 4 0 0 0 6 0 9 1 3 1f 47 0 23 3 26 0 23 0 e 0 c 24 c5
0 0 4 0 1 178 0 3 1 6 0 0 0 3 1 28 0 3 1 20 0 3 1 6 0 0 0 3 1 e 0 38 0 3 1 42 1 1f 2 19 5 55 1 5 1
29c 2 58 6 15 8 17 8 13 b c 0 2 0 1 b 5d 1 9 5 9 5 19 5 58 6 2a 4 45 9 1e 0 b 3 b 3 0 2 29 1 4 a
2b 3 19 5 a 2 3d 1 40 0 1c 1 a 5 9 5 d 1 1e 30 4c 2 2e 0 73 7 3b 2 e 2 3b 6 2a 1 a 7 2a 4 215 1 5
1 25 1 5 1 7 0 0 0 0 0 0 0 1e 1 34 0 e 0 d 1 5 0 12 1 2 0 8 0 64 0 b 1 1a 0 c 2 20 e 20 e 8b 3 296
18 a 14 713 1 1f 0 15c 4 2c 0 0 4 0 1 37 6 1 d 17 8 6 0 6 0 6 0 6 0 6 0 6 0 6 0 6 0 7d 21 19 0 58
b d5 19 b 3 3f 0 55 1 66 4 2a 0 5d 0 53 b 2e 0 726c 2 36 8 15b 13 b7 7 ca 4 1 0 0 0 4 17 3a 2 9 5
37 7 45 7 b 5 73 a 1d 2 4d 0 a 3 20 0 36 8 d 1 9 1 66 17 1b 9 5 1 5 1 5 8 6 0 6 0 3b 3 7d 1 9 5
2ba3 b 16 3 30 3 1a6d 1 69 25 6 b 4 4 19 0 4 0 0 0 1 0 1 0 7c f 1bc 1 35 6 0 1f 29 5 32 0 12 0 3 3
4 0 86 1 0 0 bd 2 5 1 5 1 5 1 2 2 6 0 6 9 4 1 b 0 19 0 12 0 1 0 e 1 d 21 7a 4 2 3 2c 2 57 0 c 2 0
2e 2d 81 1c 2 30 e 1b 3 23 8 1d 4 2a 4 1d 0 24 3 d 29 9d 1 9 5 23 3 23 3 27 7 33 a b 0 e 0 6 0 1 0
a 0 e 0 6 0 1 42 136 8 15 9 7 17 5 0 29 0 8 44 5 1 0 0 2b 0 1 2 0 1 16 0 47 7 8 2f 12 0 1 4 20 2
1a 4 0 3f 37 3 13 1 31 0 1 4 7 0 2 0 1c 1 2 3 9 6 8 6 3f 1f 26 3 b 8 35 2 1c 1 1a 4 19 6 3 b 6 4f
48 36 32 c 32 6 2d 7 9 125 1e 0 29 0 2 1 1 4a 2a 7 29 15 19 25 1b 13 16 8 4d 3 23 8 43 9 0 1 18 6
9 5 34 0 11 7 26 8 5f 0 13 a 11 0 2e 3d 6 0 0 0 3 0 e 0 a 5 3a 4 9 5 3 0 7 1 1 1 15 0 6 0 1 0 4 0
9 1 1 1 2 1 0 5 0 4 6 1 6 2 4 8a 5b 0 4 1d 47 7 9 a5 35 1 25 21 44 a 9 5 c 12 39 5 9 35 1a 1 e 3
16 b8 3b 63 52 b 7 1 0 1 7 0 1 0 1d 0 1 1 b 8 9 45 7 1 2d 1 a 1a 47 7 52 c 48 6 9 f5 8 0 2c 0 d 9
1c 2 1f 1 15 0 d 48 6 0 1 0 2b 2 0 0 1 0 8 7 9 5 5 0 1 0 24 0 1 0 5 6 9 135 18 6 10 0 28 2 1b 55 0
e 31 c 39a 65 6e 0 4 a c3 a4b 62 c 455 fa9 246 21b8 238 6 1e 0 9 3 50 0 9 5 1d 1 5 9 45 9 9 0 6 0
14 4 12 2af 5a 64 4a 3 38 6 10 3f 4 a 1 d 17f7 7 4d5 29 8 22e6 3 0 6 0 1 0 122 e 0 1c 2 1 0 d 3 7
18b 903 6a 4 c 2 8 6 9 1 7 125b 2d 1 16 8 73 3b f5 9 26 1 c1 14 45 79 13 b 13 b 56 8 18 86 54 0 46
0 1 1 0 1 1 1 3 0 b 0 0 0 6 0 40 0 3 1 7 0 6 0 1b 0 3 0 4 0 0 2 6 0 153 1 123 1 2bd e 4 0 e 44f 1e
5 5 d4 6 0 10 1 6 0 1 0 4 4 3d 20 0 6f 2c 2 d 1 9 3 1 13f 1e 10 39 4 0 1cf 29 2e5 6 0 3 0 1 0 e 0
c4 1 f 28 4b 3 9 3 1 310 43 4b 3c c1 3 0 1a 0 1 0 0 1 0 0 9 0 3 0 0 0 0 5 0 3 0 0 0 0 0 0 2 0 1 0
0 1 0 0 0 0 0 0 0 0 0 0 1 0 0 1 3 0 6 0 3 0 3 0 0 0 9 0 10 4 2 0 4 0 10 33 1 10d 2b 3 63 b e 1 e 0
e 0 24 9 ad 37 1c c 2b 3 8 6 1 d 5 99 3d7 3 10 2 c 2 76 3 5e 5 b 3 0 e b 3 37 7 9 5 27 7 1d 1 1 4d
153 b d 1 c 2 8 6 2d 0 6 7 d 3 8 6 8 6 92 0 36 24 9 405 a6df 1f 1039 5 dd 1 1681 d 1d30 c1e 21d
5e1 134a 4 105f adc50 0 1d 5f 7f ef fe0f fffd 1 fffd"⟩

/-- The general category Private Use. -/
def privateUse : NamedClass := ⟨["co", "privateuse"], "d800 18ff e06ff fffd 1 fffd"⟩

/-- Every general category of a character. -/
def all : List NamedClass := [
  uppercaseLetter, lowercaseLetter, titlecaseLetter, modifierLetter, otherLetter,
  nonspacingMark, spacingMark, enclosingMark, decimalNumber, letterNumber, otherNumber,
  connectorPunctuation, dashPunctuation, openPunctuation, closePunctuation,
  initialPunctuation, finalPunctuation, otherPunctuation, mathSymbol, currencySymbol,
  modifierSymbol, otherSymbol, spaceSeparator, lineSeparator, paragraphSeparator, control,
  format, unassigned, privateUse]

/-- The categories of letters. -/
def letterCategories : List NamedClass :=
  [uppercaseLetter, lowercaseLetter, titlecaseLetter, modifierLetter, otherLetter]

/-- The categories of marks. -/
def markCategories : List NamedClass := [nonspacingMark, spacingMark, enclosingMark]

/-- The categories of punctuation characters. -/
def punctuationCategories : List NamedClass :=
  [connectorPunctuation, dashPunctuation, openPunctuation, closePunctuation, initialPunctuation,
    finalPunctuation, otherPunctuation]

/-- The categories of separators. -/
def separatorCategories : List NamedClass := [spaceSeparator, lineSeparator, paragraphSeparator]

/-- The categories of controls, of format and private use characters and of
unassigned ones. -/
def otherCategories : List NamedClass := [control, format, unassigned, privateUse]

/-- The groups of categories, each with its names. -/
def groups : List (List String × List NamedClass) := [
  (["l", "letter"], letterCategories),
  (["lc", "casedletter"], [uppercaseLetter, lowercaseLetter, titlecaseLetter]),
  (["m", "mark", "combiningmark"], markCategories),
  (["n", "number"], [decimalNumber, letterNumber, otherNumber]),
  (["p", "punctuation", "punct"], punctuationCategories),
  (["s", "symbol"], [mathSymbol, currencySymbol, modifierSymbol, otherSymbol]),
  (["z", "separator"], separatorCategories),
  (["c", "other"], otherCategories)]

/-- The characters of any of several categories. -/
def union (ks : List NamedClass) : CharSet := .unionAll (ks.map NamedClass.members)

/-- The members of a category or of a group of categories, by name. -/
def find? (name : String) : Option CharSet :=
  match NamedClass.find? all name with
  | some s => some s
  | none => (groups.find? (·.1.contains name)).map (union ·.2)

end Regexp.GeneralCategory
