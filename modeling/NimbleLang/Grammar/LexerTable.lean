/-!
The lexical rules of Nimble as a transition network, in the integer format that `Network.decode` reads.
The rules are the 23 quoted symbols and keywords in order of appearance, then strings (with the two parts
of a string body), integers, type names, truth values, identifiers, blanks and comments.
-/

namespace NimbleLang.Grammar

/-- The lexer network in the order of the format: states, rules, modes, sets, edges, decisions, commands. -/
def lexerTable : List Int := [
    4, 0, 30, 207, 6, -1, 2, 0, 7, 0, 2, 1, 7, 1, 2, 2, 7, 2, 2, 3, 7, 3, 2, 4, 7, 4, 2, 5, 7, 5, 2, 6, 7, 6, 2,
    7, 7, 7, 2, 8, 7, 8, 2, 9, 7, 9, 2, 10, 7, 10, 2, 11, 7, 11, 2, 12, 7, 12, 2, 13, 7, 13, 2, 14, 7, 14, 2,
    15, 7, 15, 2, 16, 7, 16, 2, 17, 7, 17, 2, 18, 7, 18, 2, 19, 7, 19, 2, 20, 7, 20, 2, 21, 7, 21, 2, 22, 7, 22,
    2, 23, 7, 23, 2, 24, 7, 24, 2, 25, 7, 25, 2, 26, 7, 26, 2, 27, 7, 27, 2, 28, 7, 28, 2, 29, 7, 29, 2, 30, 7,
    30, 2, 31, 7, 31, 1, 0, 1, 0, 1, 0, 1, 0, 1, 0, 1, 1, 1, 1, 1, 2, 1, 2, 1, 3, 1, 3, 1, 4, 1, 4, 1, 4, 1, 5,
    1, 5, 1, 6, 1, 6, 1, 7, 1, 7, 1, 8, 1, 8, 1, 8, 1, 8, 1, 9, 1, 9, 1, 10, 1, 10, 1, 10, 1, 10, 1, 10, 1, 10,
    1, 11, 1, 11, 1, 11, 1, 12, 1, 12, 1, 12, 1, 12, 1, 12, 1, 13, 1, 13, 1, 13, 1, 13, 1, 13, 1, 13, 1, 14, 1,
    14, 1, 14, 1, 14, 1, 14, 1, 14, 1, 14, 1, 15, 1, 15, 1, 16, 1, 16, 1, 17, 1, 17, 1, 18, 1, 18, 1, 19, 1, 19,
    1, 20, 1, 20, 1, 21, 1, 21, 1, 21, 1, 22, 1, 22, 1, 22, 1, 23, 1, 23, 1, 23, 5, 23, 140, 8, 23, 10, 23, 12,
    23, 143, 9, 23, 1, 23, 1, 23, 1, 24, 1, 24, 1, 25, 1, 25, 1, 25, 1, 26, 4, 26, 153, 8, 26, 11, 26, 12, 26,
    154, 1, 27, 1, 27, 1, 27, 1, 27, 1, 27, 1, 27, 1, 27, 1, 27, 1, 27, 1, 27, 1, 27, 1, 27, 1, 27, 3, 27, 170,
    8, 27, 1, 28, 1, 28, 1, 28, 1, 28, 1, 28, 1, 28, 1, 28, 1, 28, 1, 28, 3, 28, 181, 8, 28, 1, 29, 1, 29, 5,
    29, 185, 8, 29, 10, 29, 12, 29, 188, 9, 29, 1, 30, 4, 30, 191, 8, 30, 11, 30, 12, 30, 192, 1, 30, 1, 30, 1,
    31, 1, 31, 1, 31, 1, 31, 5, 31, 201, 8, 31, 10, 31, 12, 31, 204, 9, 31, 1, 31, 1, 31, 1, 141, 0, 32, 1, 1,
    3, 2, 5, 3, 7, 4, 9, 5, 11, 6, 13, 7, 15, 8, 17, 9, 19, 10, 21, 11, 23, 12, 25, 13, 27, 14, 29, 15, 31, 16,
    33, 17, 35, 18, 37, 19, 39, 20, 41, 21, 43, 22, 45, 23, 47, 24, 49, 0, 51, 0, 53, 25, 55, 26, 57, 27, 59,
    28, 61, 29, 63, 30, 1, 0, 7, 2, 0, 32, 91, 93, 126, 10, 0, 34, 34, 39, 39, 63, 63, 92, 92, 97, 98, 102, 102,
    110, 110, 114, 114, 116, 116, 118, 118, 1, 0, 48, 57, 3, 0, 65, 90, 95, 95, 97, 122, 4, 0, 48, 57, 65, 90,
    95, 95, 97, 122, 3, 0, 9, 10, 13, 13, 32, 32, 2, 0, 10, 10, 13, 13, 213, 0, 1, 1, 0, 0, 0, 0, 3, 1, 0, 0, 0,
    0, 5, 1, 0, 0, 0, 0, 7, 1, 0, 0, 0, 0, 9, 1, 0, 0, 0, 0, 11, 1, 0, 0, 0, 0, 13, 1, 0, 0, 0, 0, 15, 1, 0, 0,
    0, 0, 17, 1, 0, 0, 0, 0, 19, 1, 0, 0, 0, 0, 21, 1, 0, 0, 0, 0, 23, 1, 0, 0, 0, 0, 25, 1, 0, 0, 0, 0, 27, 1,
    0, 0, 0, 0, 29, 1, 0, 0, 0, 0, 31, 1, 0, 0, 0, 0, 33, 1, 0, 0, 0, 0, 35, 1, 0, 0, 0, 0, 37, 1, 0, 0, 0, 0,
    39, 1, 0, 0, 0, 0, 41, 1, 0, 0, 0, 0, 43, 1, 0, 0, 0, 0, 45, 1, 0, 0, 0, 0, 47, 1, 0, 0, 0, 0, 53, 1, 0, 0,
    0, 0, 55, 1, 0, 0, 0, 0, 57, 1, 0, 0, 0, 0, 59, 1, 0, 0, 0, 0, 61, 1, 0, 0, 0, 0, 63, 1, 0, 0, 0, 1, 65, 1,
    0, 0, 0, 3, 70, 1, 0, 0, 0, 5, 72, 1, 0, 0, 0, 7, 74, 1, 0, 0, 0, 9, 76, 1, 0, 0, 0, 11, 79, 1, 0, 0, 0, 13,
    81, 1, 0, 0, 0, 15, 83, 1, 0, 0, 0, 17, 85, 1, 0, 0, 0, 19, 89, 1, 0, 0, 0, 21, 91, 1, 0, 0, 0, 23, 97, 1,
    0, 0, 0, 25, 100, 1, 0, 0, 0, 27, 105, 1, 0, 0, 0, 29, 111, 1, 0, 0, 0, 31, 118, 1, 0, 0, 0, 33, 120, 1, 0,
    0, 0, 35, 122, 1, 0, 0, 0, 37, 124, 1, 0, 0, 0, 39, 126, 1, 0, 0, 0, 41, 128, 1, 0, 0, 0, 43, 130, 1, 0, 0,
    0, 45, 133, 1, 0, 0, 0, 47, 136, 1, 0, 0, 0, 49, 146, 1, 0, 0, 0, 51, 148, 1, 0, 0, 0, 53, 152, 1, 0, 0, 0,
    55, 169, 1, 0, 0, 0, 57, 180, 1, 0, 0, 0, 59, 182, 1, 0, 0, 0, 61, 190, 1, 0, 0, 0, 63, 196, 1, 0, 0, 0, 65,
    66, 5, 102, 0, 0, 66, 67, 5, 117, 0, 0, 67, 68, 5, 110, 0, 0, 68, 69, 5, 99, 0, 0, 69, 2, 1, 0, 0, 0, 70,
    71, 5, 40, 0, 0, 71, 4, 1, 0, 0, 0, 72, 73, 5, 44, 0, 0, 73, 6, 1, 0, 0, 0, 74, 75, 5, 41, 0, 0, 75, 8, 1,
    0, 0, 0, 76, 77, 5, 45, 0, 0, 77, 78, 5, 62, 0, 0, 78, 10, 1, 0, 0, 0, 79, 80, 5, 123, 0, 0, 80, 12, 1, 0,
    0, 0, 81, 82, 5, 125, 0, 0, 82, 14, 1, 0, 0, 0, 83, 84, 5, 58, 0, 0, 84, 16, 1, 0, 0, 0, 85, 86, 5, 118, 0,
    0, 86, 87, 5, 97, 0, 0, 87, 88, 5, 114, 0, 0, 88, 18, 1, 0, 0, 0, 89, 90, 5, 61, 0, 0, 90, 20, 1, 0, 0, 0,
    91, 92, 5, 119, 0, 0, 92, 93, 5, 104, 0, 0, 93, 94, 5, 105, 0, 0, 94, 95, 5, 108, 0, 0, 95, 96, 5, 101, 0,
    0, 96, 22, 1, 0, 0, 0, 97, 98, 5, 105, 0, 0, 98, 99, 5, 102, 0, 0, 99, 24, 1, 0, 0, 0, 100, 101, 5, 101, 0,
    0, 101, 102, 5, 108, 0, 0, 102, 103, 5, 115, 0, 0, 103, 104, 5, 101, 0, 0, 104, 26, 1, 0, 0, 0, 105, 106, 5,
    112, 0, 0, 106, 107, 5, 114, 0, 0, 107, 108, 5, 105, 0, 0, 108, 109, 5, 110, 0, 0, 109, 110, 5, 116, 0, 0,
    110, 28, 1, 0, 0, 0, 111, 112, 5, 114, 0, 0, 112, 113, 5, 101, 0, 0, 113, 114, 5, 116, 0, 0, 114, 115, 5,
    117, 0, 0, 115, 116, 5, 114, 0, 0, 116, 117, 5, 110, 0, 0, 117, 30, 1, 0, 0, 0, 118, 119, 5, 33, 0, 0, 119,
    32, 1, 0, 0, 0, 120, 121, 5, 45, 0, 0, 121, 34, 1, 0, 0, 0, 122, 123, 5, 42, 0, 0, 123, 36, 1, 0, 0, 0, 124,
    125, 5, 47, 0, 0, 125, 38, 1, 0, 0, 0, 126, 127, 5, 43, 0, 0, 127, 40, 1, 0, 0, 0, 128, 129, 5, 60, 0, 0,
    129, 42, 1, 0, 0, 0, 130, 131, 5, 60, 0, 0, 131, 132, 5, 61, 0, 0, 132, 44, 1, 0, 0, 0, 133, 134, 5, 61, 0,
    0, 134, 135, 5, 61, 0, 0, 135, 46, 1, 0, 0, 0, 136, 141, 5, 34, 0, 0, 137, 140, 3, 49, 24, 0, 138, 140, 3,
    51, 25, 0, 139, 137, 1, 0, 0, 0, 139, 138, 1, 0, 0, 0, 140, 143, 1, 0, 0, 0, 141, 142, 1, 0, 0, 0, 141, 139,
    1, 0, 0, 0, 142, 144, 1, 0, 0, 0, 143, 141, 1, 0, 0, 0, 144, 145, 5, 34, 0, 0, 145, 48, 1, 0, 0, 0, 146,
    147, 7, 0, 0, 0, 147, 50, 1, 0, 0, 0, 148, 149, 5, 92, 0, 0, 149, 150, 7, 1, 0, 0, 150, 52, 1, 0, 0, 0, 151,
    153, 7, 2, 0, 0, 152, 151, 1, 0, 0, 0, 153, 154, 1, 0, 0, 0, 154, 152, 1, 0, 0, 0, 154, 155, 1, 0, 0, 0,
    155, 54, 1, 0, 0, 0, 156, 157, 5, 73, 0, 0, 157, 158, 5, 110, 0, 0, 158, 170, 5, 116, 0, 0, 159, 160, 5, 66,
    0, 0, 160, 161, 5, 111, 0, 0, 161, 162, 5, 111, 0, 0, 162, 170, 5, 108, 0, 0, 163, 164, 5, 83, 0, 0, 164,
    165, 5, 116, 0, 0, 165, 166, 5, 114, 0, 0, 166, 167, 5, 105, 0, 0, 167, 168, 5, 110, 0, 0, 168, 170, 5, 103,
    0, 0, 169, 156, 1, 0, 0, 0, 169, 159, 1, 0, 0, 0, 169, 163, 1, 0, 0, 0, 170, 56, 1, 0, 0, 0, 171, 172, 5,
    116, 0, 0, 172, 173, 5, 114, 0, 0, 173, 174, 5, 117, 0, 0, 174, 181, 5, 101, 0, 0, 175, 176, 5, 102, 0, 0,
    176, 177, 5, 97, 0, 0, 177, 178, 5, 108, 0, 0, 178, 179, 5, 115, 0, 0, 179, 181, 5, 101, 0, 0, 180, 171, 1,
    0, 0, 0, 180, 175, 1, 0, 0, 0, 181, 58, 1, 0, 0, 0, 182, 186, 7, 3, 0, 0, 183, 185, 7, 4, 0, 0, 184, 183, 1,
    0, 0, 0, 185, 188, 1, 0, 0, 0, 186, 184, 1, 0, 0, 0, 186, 187, 1, 0, 0, 0, 187, 60, 1, 0, 0, 0, 188, 186, 1,
    0, 0, 0, 189, 191, 7, 5, 0, 0, 190, 189, 1, 0, 0, 0, 191, 192, 1, 0, 0, 0, 192, 190, 1, 0, 0, 0, 192, 193,
    1, 0, 0, 0, 193, 194, 1, 0, 0, 0, 194, 195, 6, 30, 0, 0, 195, 62, 1, 0, 0, 0, 196, 197, 5, 47, 0, 0, 197,
    198, 5, 47, 0, 0, 198, 202, 1, 0, 0, 0, 199, 201, 8, 6, 0, 0, 200, 199, 1, 0, 0, 0, 201, 204, 1, 0, 0, 0,
    202, 200, 1, 0, 0, 0, 202, 203, 1, 0, 0, 0, 203, 205, 1, 0, 0, 0, 204, 202, 1, 0, 0, 0, 205, 206, 6, 31, 0,
    0, 206, 64, 1, 0, 0, 0, 9, 0, 139, 141, 154, 169, 180, 186, 192, 202, 1, 6, 0, 0]

end NimbleLang.Grammar
