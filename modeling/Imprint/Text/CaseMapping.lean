import Imprint.Text.Category

set_option autoImplicit false

/-!
# Case mapping

Upper, lower and title case of characters and texts.  Most characters map to one character, and
neighbouring characters mostly by the same distance: those are stored as progressions (first code
point, step, count, distance).  The others are stored with their full images.  A text maps character
by character, except that a capital sigma at the end of a word has a lower case form of its own.
-/

namespace Imprint.Text

/-- Progressions of the upper case mapping. -/
def upperProgressions : String :=
  "61,1,26,-32;b5,1,1,743;e0,1,23,-32;f8,1,7,-32;ff,1,1,121;101,2,24,-1;131,1,1,-232;133,2,3,-1" ++
   ";13a,2,8,-1;14b,2,23,-1;17a,2,3,-1;17f,1,1,-300;180,1,1,195;183,2,2,-1;188,1,1,-1;18c,1,1,-1" ++
   ";192,1,1,-1;195,1,1,97;199,1,1,-1;19a,1,1,163;19e,1,1,130;1a1,2,3,-1;1a8,1,1,-1;1ad,1,1,-1;1" ++
   "b0,1,1,-1;1b4,2,2,-1;1b9,1,1,-1;1bd,1,1,-1;1bf,1,1,56;1c5,1,1,-1;1c6,1,1,-2;1c8,1,1,-1;1c9,1" ++
   ",1,-2;1cb,1,1,-1;1cc,1,1,-2;1ce,2,8,-1;1dd,1,1,-79;1df,2,9,-1;1f2,1,1,-1;1f3,1,1,-2;1f5,1,1," ++
   "-1;1f9,2,20,-1;223,2,9,-1;23c,1,1,-1;23f,1,2,10815;242,1,1,-1;247,2,5,-1;250,1,1,10783;251,1" ++
   ",1,10780;252,1,1,10782;253,1,1,-210;254,1,1,-206;256,1,2,-205;259,1,1,-202;25b,1,1,-203;25c," ++
   "1,1,42319;260,1,1,-205;261,1,1,42315;263,1,1,-207;265,1,1,42280;266,1,1,42308;268,1,1,-209;2" ++
   "69,1,1,-211;26a,1,1,42308;26b,1,1,10743;26c,1,1,42305;26f,1,1,-211;271,1,1,10749;272,1,1,-21" ++
   "3;275,1,1,-214;27d,1,1,10727;280,1,1,-218;282,1,1,42307;283,1,1,-218;287,1,1,42282;288,1,1,-" ++
   "218;289,1,1,-69;28a,1,2,-217;28c,1,1,-71;292,1,1,-219;29d,1,1,42261;29e,1,1,42258;345,1,1,84" ++
   ";371,2,2,-1;377,1,1,-1;37b,1,3,130;3ac,1,1,-38;3ad,1,3,-37;3b1,1,17,-32;3c2,1,1,-31;3c3,1,9," ++
   "-32;3cc,1,1,-64;3cd,1,2,-63;3d0,1,1,-62;3d1,1,1,-57;3d5,1,1,-47;3d6,1,1,-54;3d7,1,1,-8;3d9,2" ++
   ",12,-1;3f0,1,1,-86;3f1,1,1,-80;3f2,1,1,7;3f3,1,1,-116;3f5,1,1,-96;3f8,1,1,-1;3fb,1,1,-1;430," ++
   "1,32,-32;450,1,16,-80;461,2,17,-1;48b,2,27,-1;4c2,2,7,-1;4cf,1,1,-15;4d1,2,48,-1;561,1,38,-4" ++
   "8;10d0,1,43,3008;10fd,1,3,3008;13f8,1,6,-8;1c80,1,1,-6254;1c81,1,1,-6253;1c82,1,1,-6244;1c83" ++
   ",1,2,-6242;1c85,1,1,-6243;1c86,1,1,-6236;1c87,1,1,-6181;1c88,1,1,35266;1d79,1,1,35332;1d7d,1" ++
   ",1,3814;1d8e,1,1,35384;1e01,2,75,-1;1e9b,1,1,-59;1ea1,2,48,-1;1f00,1,8,8;1f10,1,6,8;1f20,1,8" ++
   ",8;1f30,1,8,8;1f40,1,6,8;1f51,2,4,8;1f60,1,8,8;1f70,1,2,74;1f72,1,4,86;1f76,1,2,100;1f78,1,2" ++
   ",128;1f7a,1,2,112;1f7c,1,2,126;1fb0,1,2,8;1fbe,1,1,-7205;1fd0,1,2,8;1fe0,1,2,8;1fe5,1,1,7;21" ++
   "4e,1,1,-28;2170,1,16,-16;2184,1,1,-1;24d0,1,26,-26;2c30,1,48,-48;2c61,1,1,-1;2c65,1,1,-10795" ++
   ";2c66,1,1,-10792;2c68,2,3,-1;2c73,1,1,-1;2c76,1,1,-1;2c81,2,50,-1;2cec,2,2,-1;2cf3,1,1,-1;2d" ++
   "00,1,38,-7264;2d27,1,1,-7264;2d2d,1,1,-7264;a641,2,23,-1;a681,2,14,-1;a723,2,7,-1;a733,2,31," ++
   "-1;a77a,2,2,-1;a77f,2,5,-1;a78c,1,1,-1;a791,2,2,-1;a794,1,1,48;a797,2,10,-1;a7b5,2,8,-1;a7c8" ++
   ",2,2,-1;a7d1,1,1,-1;a7d7,2,2,-1;a7f6,1,1,-1;ab53,1,1,-928;ab70,1,80,-38864;ff41,1,26,-32;104" ++
   "28,1,40,-40;104d8,1,36,-40;10597,2,19,-39;10598,2,5,-39;105a4,2,7,-39;105b4,2,3,-39;105bc,1," ++
   "1,-39;10cc0,1,51,-64;118c0,1,32,-32;16e60,1,32,-32;1e922,1,34,-34"

/-- Characters with an upper case of several characters. -/
def upperExpansions : String :=
  "df:53,53;149:2bc,4e;1f0:4a,30c;390:399,308,301;3b0:3a5,308,301;587:535,552;1e96:48,331;1e97:" ++
   "54,308;1e98:57,30a;1e99:59,30a;1e9a:41,2be;1f50:3a5,313;1f52:3a5,313,300;1f54:3a5,313,301;1f" ++
   "56:3a5,313,342;1f80:1f08,399;1f81:1f09,399;1f82:1f0a,399;1f83:1f0b,399;1f84:1f0c,399;1f85:1f" ++
   "0d,399;1f86:1f0e,399;1f87:1f0f,399;1f88:1f08,399;1f89:1f09,399;1f8a:1f0a,399;1f8b:1f0b,399;1" ++
   "f8c:1f0c,399;1f8d:1f0d,399;1f8e:1f0e,399;1f8f:1f0f,399;1f90:1f28,399;1f91:1f29,399;1f92:1f2a" ++
   ",399;1f93:1f2b,399;1f94:1f2c,399;1f95:1f2d,399;1f96:1f2e,399;1f97:1f2f,399;1f98:1f28,399;1f9" ++
   "9:1f29,399;1f9a:1f2a,399;1f9b:1f2b,399;1f9c:1f2c,399;1f9d:1f2d,399;1f9e:1f2e,399;1f9f:1f2f,3" ++
   "99;1fa0:1f68,399;1fa1:1f69,399;1fa2:1f6a,399;1fa3:1f6b,399;1fa4:1f6c,399;1fa5:1f6d,399;1fa6:" ++
   "1f6e,399;1fa7:1f6f,399;1fa8:1f68,399;1fa9:1f69,399;1faa:1f6a,399;1fab:1f6b,399;1fac:1f6c,399" ++
   ";1fad:1f6d,399;1fae:1f6e,399;1faf:1f6f,399;1fb2:1fba,399;1fb3:391,399;1fb4:386,399;1fb6:391," ++
   "342;1fb7:391,342,399;1fbc:391,399;1fc2:1fca,399;1fc3:397,399;1fc4:389,399;1fc6:397,342;1fc7:" ++
   "397,342,399;1fcc:397,399;1fd2:399,308,300;1fd3:399,308,301;1fd6:399,342;1fd7:399,308,342;1fe" ++
   "2:3a5,308,300;1fe3:3a5,308,301;1fe4:3a1,313;1fe6:3a5,342;1fe7:3a5,308,342;1ff2:1ffa,399;1ff3" ++
   ":3a9,399;1ff4:38f,399;1ff6:3a9,342;1ff7:3a9,342,399;1ffc:3a9,399;fb00:46,46;fb01:46,49;fb02:" ++
   "46,4c;fb03:46,46,49;fb04:46,46,4c;fb05:53,54;fb06:53,54;fb13:544,546;fb14:544,535;fb15:544,5" ++
   "3b;fb16:54e,546;fb17:544,53d"

/-- Progressions of the lower case mapping. -/
def lowerProgressions : String :=
  "41,1,26,32;c0,1,23,32;d8,1,7,32;100,2,24,1;132,2,3,1;139,2,8,1;14a,2,23,1;178,1,1,-121;179,2" ++
   ",3,1;181,1,1,210;182,2,2,1;186,1,1,206;187,1,1,1;189,1,2,205;18b,1,1,1;18e,1,1,79;18f,1,1,20" ++
   "2;190,1,1,203;191,1,1,1;193,1,1,205;194,1,1,207;196,1,1,211;197,1,1,209;198,1,1,1;19c,1,1,21" ++
   "1;19d,1,1,213;19f,1,1,214;1a0,2,3,1;1a6,1,1,218;1a7,1,1,1;1a9,1,1,218;1ac,1,1,1;1ae,1,1,218;" ++
   "1af,1,1,1;1b1,1,2,217;1b3,2,2,1;1b7,1,1,219;1b8,1,1,1;1bc,1,1,1;1c4,1,1,2;1c5,1,1,1;1c7,1,1," ++
   "2;1c8,1,1,1;1ca,1,1,2;1cb,2,9,1;1de,2,9,1;1f1,1,1,2;1f2,2,2,1;1f6,1,1,-97;1f7,1,1,-56;1f8,2," ++
   "20,1;220,1,1,-130;222,2,9,1;23a,1,1,10795;23b,1,1,1;23d,1,1,-163;23e,1,1,10792;241,1,1,1;243" ++
   ",1,1,-195;244,1,1,69;245,1,1,71;246,2,5,1;370,2,2,1;376,1,1,1;37f,1,1,116;386,1,1,38;388,1,3" ++
   ",37;38c,1,1,64;38e,1,2,63;391,1,17,32;3a3,1,9,32;3cf,1,1,8;3d8,2,12,1;3f4,1,1,-60;3f7,1,1,1;" ++
   "3f9,1,1,-7;3fa,1,1,1;3fd,1,3,-130;400,1,16,80;410,1,32,32;460,2,17,1;48a,2,27,1;4c0,1,1,15;4" ++
   "c1,2,7,1;4d0,2,48,1;531,1,38,48;10a0,1,38,7264;10c7,1,1,7264;10cd,1,1,7264;13a0,1,80,38864;1" ++
   "3f0,1,6,8;1c90,1,43,-3008;1cbd,1,3,-3008;1e00,2,75,1;1e9e,1,1,-7615;1ea0,2,48,1;1f08,1,8,-8;" ++
   "1f18,1,6,-8;1f28,1,8,-8;1f38,1,8,-8;1f48,1,6,-8;1f59,2,4,-8;1f68,1,8,-8;1f88,1,8,-8;1f98,1,8" ++
   ",-8;1fa8,1,8,-8;1fb8,1,2,-8;1fba,1,2,-74;1fbc,1,1,-9;1fc8,1,4,-86;1fcc,1,1,-9;1fd8,1,2,-8;1f" ++
   "da,1,2,-100;1fe8,1,2,-8;1fea,1,2,-112;1fec,1,1,-7;1ff8,1,2,-128;1ffa,1,2,-126;1ffc,1,1,-9;21" ++
   "26,1,1,-7517;212a,1,1,-8383;212b,1,1,-8262;2132,1,1,28;2160,1,16,16;2183,1,1,1;24b6,1,26,26;" ++
   "2c00,1,48,48;2c60,1,1,1;2c62,1,1,-10743;2c63,1,1,-3814;2c64,1,1,-10727;2c67,2,3,1;2c6d,1,1,-" ++
   "10780;2c6e,1,1,-10749;2c6f,1,1,-10783;2c70,1,1,-10782;2c72,1,1,1;2c75,1,1,1;2c7e,1,2,-10815;" ++
   "2c80,2,50,1;2ceb,2,2,1;2cf2,1,1,1;a640,2,23,1;a680,2,14,1;a722,2,7,1;a732,2,31,1;a779,2,2,1;" ++
   "a77d,1,1,-35332;a77e,2,5,1;a78b,1,1,1;a78d,1,1,-42280;a790,2,2,1;a796,2,10,1;a7aa,1,1,-42308" ++
   ";a7ab,1,1,-42319;a7ac,1,1,-42315;a7ad,1,1,-42305;a7ae,1,1,-42308;a7b0,1,1,-42258;a7b1,1,1,-4" ++
   "2282;a7b2,1,1,-42261;a7b3,1,1,928;a7b4,2,8,1;a7c4,1,1,-48;a7c5,1,1,-42307;a7c6,1,1,-35384;a7" ++
   "c7,2,2,1;a7d0,1,1,1;a7d6,2,2,1;a7f5,1,1,1;ff21,1,26,32;10400,1,40,40;104b0,1,36,40;10570,2,1" ++
   "9,39;10571,2,5,39;1057d,2,7,39;1058d,2,3,39;10595,1,1,39;10c80,1,51,64;118a0,1,32,32;16e40,1" ++
   ",32,32;1e900,1,34,34"

/-- Characters with a lower case of several characters. -/
def lowerExpansions : String :=
  "130:69,307"

/-- Characters whose title case is not their upper case. -/
def titleExceptions : String :=
  "df:53,73;1c4:1c5;1c5:1c5;1c6:1c5;1c7:1c8;1c8:1c8;1c9:1c8;1ca:1cb;1cb:1cb;1cc:1cb;1f1:1f2;1f2" ++
   ":1f2;1f3:1f2;587:535,582;10d0:10d0;10d1:10d1;10d2:10d2;10d3:10d3;10d4:10d4;10d5:10d5;10d6:10" ++
   "d6;10d7:10d7;10d8:10d8;10d9:10d9;10da:10da;10db:10db;10dc:10dc;10dd:10dd;10de:10de;10df:10df" ++
   ";10e0:10e0;10e1:10e1;10e2:10e2;10e3:10e3;10e4:10e4;10e5:10e5;10e6:10e6;10e7:10e7;10e8:10e8;1" ++
   "0e9:10e9;10ea:10ea;10eb:10eb;10ec:10ec;10ed:10ed;10ee:10ee;10ef:10ef;10f0:10f0;10f1:10f1;10f" ++
   "2:10f2;10f3:10f3;10f4:10f4;10f5:10f5;10f6:10f6;10f7:10f7;10f8:10f8;10f9:10f9;10fa:10fa;10fd:" ++
   "10fd;10fe:10fe;10ff:10ff;1f80:1f88;1f81:1f89;1f82:1f8a;1f83:1f8b;1f84:1f8c;1f85:1f8d;1f86:1f" ++
   "8e;1f87:1f8f;1f88:1f88;1f89:1f89;1f8a:1f8a;1f8b:1f8b;1f8c:1f8c;1f8d:1f8d;1f8e:1f8e;1f8f:1f8f" ++
   ";1f90:1f98;1f91:1f99;1f92:1f9a;1f93:1f9b;1f94:1f9c;1f95:1f9d;1f96:1f9e;1f97:1f9f;1f98:1f98;1" ++
   "f99:1f99;1f9a:1f9a;1f9b:1f9b;1f9c:1f9c;1f9d:1f9d;1f9e:1f9e;1f9f:1f9f;1fa0:1fa8;1fa1:1fa9;1fa" ++
   "2:1faa;1fa3:1fab;1fa4:1fac;1fa5:1fad;1fa6:1fae;1fa7:1faf;1fa8:1fa8;1fa9:1fa9;1faa:1faa;1fab:" ++
   "1fab;1fac:1fac;1fad:1fad;1fae:1fae;1faf:1faf;1fb2:1fba,345;1fb3:1fbc;1fb4:386,345;1fb7:391,3" ++
   "42,345;1fbc:1fbc;1fc2:1fca,345;1fc3:1fcc;1fc4:389,345;1fc7:397,342,345;1fcc:1fcc;1ff2:1ffa,3" ++
   "45;1ff3:1ffc;1ff4:38f,345;1ff7:3a9,342,345;1ffc:1ffc;fb00:46,66;fb01:46,69;fb02:46,6c;fb03:4" ++
   "6,66,69;fb04:46,66,6c;fb05:53,74;fb06:53,74;fb13:544,576;fb14:544,565;fb15:544,56b;fb16:54e," ++
   "576;fb17:544,56d"

/-- Characters whose folded form is not their lower case. -/
def foldExceptions : String :=
  "b5:3bc;df:73,73;149:2bc,6e;17f:73;1f0:6a,30c;345:3b9;390:3b9,308,301;3b0:3c5,308,301;3c2:3c3" ++
   ";3d0:3b2;3d1:3b8;3d5:3c6;3d6:3c0;3f0:3ba;3f1:3c1;3f5:3b5;587:565,582;13a0:13a0;13a1:13a1;13a" ++
   "2:13a2;13a3:13a3;13a4:13a4;13a5:13a5;13a6:13a6;13a7:13a7;13a8:13a8;13a9:13a9;13aa:13aa;13ab:" ++
   "13ab;13ac:13ac;13ad:13ad;13ae:13ae;13af:13af;13b0:13b0;13b1:13b1;13b2:13b2;13b3:13b3;13b4:13" ++
   "b4;13b5:13b5;13b6:13b6;13b7:13b7;13b8:13b8;13b9:13b9;13ba:13ba;13bb:13bb;13bc:13bc;13bd:13bd" ++
   ";13be:13be;13bf:13bf;13c0:13c0;13c1:13c1;13c2:13c2;13c3:13c3;13c4:13c4;13c5:13c5;13c6:13c6;1" ++
   "3c7:13c7;13c8:13c8;13c9:13c9;13ca:13ca;13cb:13cb;13cc:13cc;13cd:13cd;13ce:13ce;13cf:13cf;13d" ++
   "0:13d0;13d1:13d1;13d2:13d2;13d3:13d3;13d4:13d4;13d5:13d5;13d6:13d6;13d7:13d7;13d8:13d8;13d9:" ++
   "13d9;13da:13da;13db:13db;13dc:13dc;13dd:13dd;13de:13de;13df:13df;13e0:13e0;13e1:13e1;13e2:13" ++
   "e2;13e3:13e3;13e4:13e4;13e5:13e5;13e6:13e6;13e7:13e7;13e8:13e8;13e9:13e9;13ea:13ea;13eb:13eb" ++
   ";13ec:13ec;13ed:13ed;13ee:13ee;13ef:13ef;13f0:13f0;13f1:13f1;13f2:13f2;13f3:13f3;13f4:13f4;1" ++
   "3f5:13f5;13f8:13f0;13f9:13f1;13fa:13f2;13fb:13f3;13fc:13f4;13fd:13f5;1c80:432;1c81:434;1c82:" ++
   "43e;1c83:441;1c84:442;1c85:442;1c86:44a;1c87:463;1c88:a64b;1e96:68,331;1e97:74,308;1e98:77,3" ++
   "0a;1e99:79,30a;1e9a:61,2be;1e9b:1e61;1e9e:73,73;1f50:3c5,313;1f52:3c5,313,300;1f54:3c5,313,3" ++
   "01;1f56:3c5,313,342;1f80:1f00,3b9;1f81:1f01,3b9;1f82:1f02,3b9;1f83:1f03,3b9;1f84:1f04,3b9;1f" ++
   "85:1f05,3b9;1f86:1f06,3b9;1f87:1f07,3b9;1f88:1f00,3b9;1f89:1f01,3b9;1f8a:1f02,3b9;1f8b:1f03," ++
   "3b9;1f8c:1f04,3b9;1f8d:1f05,3b9;1f8e:1f06,3b9;1f8f:1f07,3b9;1f90:1f20,3b9;1f91:1f21,3b9;1f92" ++
   ":1f22,3b9;1f93:1f23,3b9;1f94:1f24,3b9;1f95:1f25,3b9;1f96:1f26,3b9;1f97:1f27,3b9;1f98:1f20,3b" ++
   "9;1f99:1f21,3b9;1f9a:1f22,3b9;1f9b:1f23,3b9;1f9c:1f24,3b9;1f9d:1f25,3b9;1f9e:1f26,3b9;1f9f:1" ++
   "f27,3b9;1fa0:1f60,3b9;1fa1:1f61,3b9;1fa2:1f62,3b9;1fa3:1f63,3b9;1fa4:1f64,3b9;1fa5:1f65,3b9;" ++
   "1fa6:1f66,3b9;1fa7:1f67,3b9;1fa8:1f60,3b9;1fa9:1f61,3b9;1faa:1f62,3b9;1fab:1f63,3b9;1fac:1f6" ++
   "4,3b9;1fad:1f65,3b9;1fae:1f66,3b9;1faf:1f67,3b9;1fb2:1f70,3b9;1fb3:3b1,3b9;1fb4:3ac,3b9;1fb6" ++
   ":3b1,342;1fb7:3b1,342,3b9;1fbc:3b1,3b9;1fbe:3b9;1fc2:1f74,3b9;1fc3:3b7,3b9;1fc4:3ae,3b9;1fc6" ++
   ":3b7,342;1fc7:3b7,342,3b9;1fcc:3b7,3b9;1fd2:3b9,308,300;1fd3:3b9,308,301;1fd6:3b9,342;1fd7:3" ++
   "b9,308,342;1fe2:3c5,308,300;1fe3:3c5,308,301;1fe4:3c1,313;1fe6:3c5,342;1fe7:3c5,308,342;1ff2" ++
   ":1f7c,3b9;1ff3:3c9,3b9;1ff4:3ce,3b9;1ff6:3c9,342;1ff7:3c9,342,3b9;1ffc:3c9,3b9;ab70:13a0;ab7" ++
   "1:13a1;ab72:13a2;ab73:13a3;ab74:13a4;ab75:13a5;ab76:13a6;ab77:13a7;ab78:13a8;ab79:13a9;ab7a:" ++
   "13aa;ab7b:13ab;ab7c:13ac;ab7d:13ad;ab7e:13ae;ab7f:13af;ab80:13b0;ab81:13b1;ab82:13b2;ab83:13" ++
   "b3;ab84:13b4;ab85:13b5;ab86:13b6;ab87:13b7;ab88:13b8;ab89:13b9;ab8a:13ba;ab8b:13bb;ab8c:13bc" ++
   ";ab8d:13bd;ab8e:13be;ab8f:13bf;ab90:13c0;ab91:13c1;ab92:13c2;ab93:13c3;ab94:13c4;ab95:13c5;a" ++
   "b96:13c6;ab97:13c7;ab98:13c8;ab99:13c9;ab9a:13ca;ab9b:13cb;ab9c:13cc;ab9d:13cd;ab9e:13ce;ab9" ++
   "f:13cf;aba0:13d0;aba1:13d1;aba2:13d2;aba3:13d3;aba4:13d4;aba5:13d5;aba6:13d6;aba7:13d7;aba8:" ++
   "13d8;aba9:13d9;abaa:13da;abab:13db;abac:13dc;abad:13dd;abae:13de;abaf:13df;abb0:13e0;abb1:13" ++
   "e1;abb2:13e2;abb3:13e3;abb4:13e4;abb5:13e5;abb6:13e6;abb7:13e7;abb8:13e8;abb9:13e9;abba:13ea" ++
   ";abbb:13eb;abbc:13ec;abbd:13ed;abbe:13ee;abbf:13ef;fb00:66,66;fb01:66,69;fb02:66,6c;fb03:66," ++
   "66,69;fb04:66,66,6c;fb05:73,74;fb06:73,74;fb13:574,576;fb14:574,565;fb15:574,56b;fb16:57e,57" ++
   "6;fb17:574,56d"

/-- The value of a hexadecimal digit. -/
def hexValue? (letter : Char) : Option Nat :=
  if '0' ≤ letter && letter ≤ '9' then some (letter.toNat - '0'.toNat)
  else if 'a' ≤ letter && letter ≤ 'f' then some (letter.toNat - 'a'.toNat + 10)
  else if 'A' ≤ letter && letter ≤ 'F' then some (letter.toNat - 'A'.toNat + 10)
  else none

/-- Reads a hexadecimal number, skipping what is no digit. -/
def readHex (letters : List Char) : Nat :=
  letters.foldl (fun value letter => 16 * value + (hexValue? letter).getD 0) 0

/-- Reads a decimal number with an optional minus sign. -/
def readSigned (letters : List Char) : Int :=
  match letters with
  | '-' :: digits => -(Int.ofNat (digits.foldl (fun value letter => 10 * value + (letter.toNat - 48)) 0))
  | digits => Int.ofNat (digits.foldl (fun value letter => 10 * value + (letter.toNat - 48)) 0)

/-- Splits a list at every occurrence of a separator; the separators are dropped. -/
def splitAtEach (separator : Char) : List Char → List (List Char)
  | [] => [[]]
  | letter :: rest =>
      if letter = separator then [] :: splitAtEach separator rest
      else
        match splitAtEach separator rest with
        | [] => [[letter]]
        | part :: parts => (letter :: part) :: parts

/-- Characters that map by one distance. -/
structure Progression where
  first : Nat
  step : Nat
  count : Nat
  distance : Int
deriving Inhabited

/-- Reads a table of progressions. -/
def Progression.table (stored : String) : Array Progression :=
  ((splitAtEach ';' stored.toList).map fun entry =>
    match splitAtEach ',' entry with
    | [first, step, count, distance] =>
        ⟨readHex first, (readSigned step).toNat, (readSigned count).toNat, readSigned distance⟩
    | _ => ⟨0, 1, 0, 0⟩).toArray

/-- The progression's image of a code point that belongs to it. -/
def Progression.image? (progression : Progression) (point : Nat) : Option Char :=
  if point < progression.first then none
  else
    let offset := point - progression.first
    if progression.step = 0 then none
    else if offset % progression.step = 0 && offset / progression.step < progression.count then
      some (Char.ofNat (Int.ofNat point + progression.distance).toNat)
    else none

/-- Reads a table of images of several characters. -/
def expansionTable (stored : String) : List (Nat × List Char) :=
  (splitAtEach ';' stored.toList).map fun entry =>
    match splitAtEach ':' entry with
    | [point, image] => (readHex point, (splitAtEach ',' image).map fun part => Char.ofNat (readHex part))
    | _ => (0, [])

def upperProgressionTable : Array Progression := Progression.table upperProgressions
def lowerProgressionTable : Array Progression := Progression.table lowerProgressions
def upperExpansionTable : List (Nat × List Char) := expansionTable upperExpansions
def lowerExpansionTable : List (Nat × List Char) := expansionTable lowerExpansions
def titleExceptionTable : List (Nat × List Char) := expansionTable titleExceptions
def foldExceptionTable : List (Nat × List Char) := expansionTable foldExceptions

/-- The image of a character under a mapping given by progressions and expansions; a character that
neither mentions is its own image. -/
def mapCase (progressions : Array Progression) (expansions : List (Nat × List Char))
    (letter : Char) : List Char :=
  match progressions.findSome? (·.image? letter.toNat) with
  | some image => [image]
  | none => (expansions.lookup letter.toNat).getD [letter]

/-- Upper case of one character. -/
def upperChar (letter : Char) : List Char :=
  if letter.toNat < 128 then [letter.toUpper]
  else mapCase upperProgressionTable upperExpansionTable letter

/-- Lower case of one character. -/
def lowerChar (letter : Char) : List Char :=
  if letter.toNat < 128 then [letter.toLower]
  else mapCase lowerProgressionTable lowerExpansionTable letter

/-- Title case of one character. -/
def titleChar (letter : Char) : List Char :=
  if letter.toNat < 128 then [letter.toUpper]
  else (titleExceptionTable.lookup letter.toNat).getD (upperChar letter)

/-- The form of a character in comparisons without regard to case. -/
def foldChar (letter : Char) : List Char :=
  if letter.toNat < 128 then [letter.toLower]
  else (foldExceptionTable.lookup letter.toNat).getD (lowerChar letter)

/-- Characters with a case of their own. -/
def isCased (letter : Char) : Bool :=
  isLowercase letter || isUppercase letter || isTitlecase letter

/-- Characters that are passed over when the neighbours of a sigma are sought: marks, modifiers and
the signs used inside words. -/
def isCaseIgnorable (letter : Char) : Bool :=
  match category letter with
  | .nonspacingMark | .enclosingMark | .format | .modifierLetter | .modifierSymbol => true
  | _ => inRanges [(0x27, 0x27), (0x2e, 0x2e), (0x3a, 0x3a), (0xb7, 0xb7), (0x387, 0x387),
      (0x55f, 0x55f), (0x5f4, 0x5f4), (0x2018, 0x2019), (0x2024, 0x2024), (0x2027, 0x2027),
      (0xfe13, 0xfe13), (0xfe52, 0xfe52), (0xfe55, 0xfe55), (0xff07, 0xff07), (0xff0e, 0xff0e),
      (0xff1a, 0xff1a)] letter

/-- A sigma is final if a cased character stands before it and none after it, in both directions
passing over characters that do not count. -/
def isFinalSigma (before after : List Char) : Bool :=
  let precedes := match before.dropWhile isCaseIgnorable with
    | letter :: _ => isCased letter
    | [] => false
  let follows := match after.dropWhile isCaseIgnorable with
    | letter :: _ => isCased letter
    | [] => false
  precedes && !follows

/-- Lower case, with the characters already passed in reverse order. -/
def lowerFrom : List Char → List Char → List Char
  | _, [] => []
  | before, letter :: rest =>
      let image :=
        if letter.toNat = 0x3a3 then
          [if isFinalSigma before rest then Char.ofNat 0x3c2 else Char.ofNat 0x3c3]
        else lowerChar letter
      image ++ lowerFrom (letter :: before) rest

/-- Lower case of a text. -/
def lower (letters : List Char) : List Char :=
  lowerFrom [] letters

/-- Upper case of a text. -/
def upper (letters : List Char) : List Char :=
  letters.flatMap upperChar

/-- Folded form of a text. -/
def fold (letters : List Char) : List Char :=
  letters.flatMap foldChar

/-- First character in title case, the others in lower case. -/
def capitalize : List Char → List Char
  | [] => []
  | first :: rest => titleChar first ++ lowerFrom [first] rest

/-- Each cased character in title case if no cased character stands before it, else in lower case. -/
def titleFrom : List Char → Bool → List Char → List Char
  | _, _, [] => []
  | before, previousCased, letter :: rest =>
      let image :=
        if previousCased then
          if letter.toNat = 0x3a3 then
            [if isFinalSigma before rest then Char.ofNat 0x3c2 else Char.ofNat 0x3c3]
          else lowerChar letter
        else titleChar letter
      image ++ titleFrom (letter :: before) (isCased letter) rest

/-- Title case of a text. -/
def title (letters : List Char) : List Char :=
  titleFrom [] false letters

/-- Upper case letters in lower case and the other way round. -/
def swapCase (letters : List Char) : List Char :=
  let rec walk : List Char → List Char → List Char
    | _, [] => []
    | before, letter :: rest =>
        let image :=
          if isUppercase letter then
            if letter.toNat = 0x3a3 then
              [if isFinalSigma before rest then Char.ofNat 0x3c2 else Char.ofNat 0x3c3]
            else lowerChar letter
          else if isLowercase letter then upperChar letter
          else [letter]
        image ++ walk (letter :: before) rest
  walk [] letters

/-- No letter is upper or title case, and at least one is lower case. -/
def isLowerText (letters : List Char) : Bool :=
  letters.any isLowercase && !letters.any fun letter => isUppercase letter || isTitlecase letter

/-- No letter is lower or title case, and at least one is upper case. -/
def isUpperText (letters : List Char) : Bool :=
  letters.any isUppercase && !letters.any fun letter => isLowercase letter || isTitlecase letter

/-- Words start with an upper or title case letter and go on in lower case, and there is a word. -/
def isTitleText (letters : List Char) : Bool :=
  let rec walk : Bool → Bool → List Char → Bool
    | found, _, [] => found
    | found, previousCased, letter :: rest =>
        if isUppercase letter || isTitlecase letter then
          if previousCased then false else walk true true rest
        else if isLowercase letter then
          if previousCased then walk true true rest else false
        else walk found false rest
  walk false false letters

end Imprint.Text
